/-
What the rules of bracketed and keyword constructs read.

One statement for each rule: it keeps its books, and the tokens that it passed on the way
to a result are a phrase that writes the result.  The statement about a rule supposes the
same of the rules one level down, behind the token where the rule began.
-/

import Lingo.Proofs.Grammar.Repetition

namespace Lingo

namespace Grammar

open Rule

variable {tokens : Array Placed} {last start : Nat} {shallow : Prop} {level : Level} {place : Nat}
  (ends : EndsAt tokens last) (below : Level.Below tokens last shallow (start + 1) level)

/-! ### Literals -/

def bareEntry (entry : (Span × String) × Script) : String × Bare :=
  (entry.1.2, entry.2.bare)

theorem bareEntries_addEntry {entries : List ((Span × String) × Script)}
    {written : List (String × Bare)} (kept : Tree.bareEntries entries = Phrase.keepLast written)
    (entry : (Span × String) × Script) :
    Tree.bareEntries (addEntry entries entry) = Phrase.keepLast (written ++ [bareEntry entry]) := by
  have known : entries.any (·.1.2 == entry.1.2) = true ↔ entry.1.2 ∈ written.map Prod.fst := by
    rw [← Phrase.keepLast_keys, ← kept, Tree.bareEntries_eq_map]
    simp
  rw [bareEntry, Phrase.keepLast_append, ← kept]
  unfold addEntry
  by_cases present : entry.1.2 ∈ written.map Prod.fst
  · rw [if_pos (known.mpr present), if_pos present]
    simp only [Tree.bareEntries_eq_map, List.map_map]
    apply List.map_congr_left
    intro old _
    by_cases same : old.1.2 = entry.1.2
    · simp [same]
    · simp [same]
  · rw [if_neg (mt known.mp present), if_neg present]
    simp [Tree.bareEntries_eq_map]

theorem bareEntries_foldl_addEntry (others : List ((Span × String) × Script)) :
    ∀ {entries : List ((Span × String) × Script)} {written : List (String × Bare)},
      Tree.bareEntries entries = Phrase.keepLast written →
      Tree.bareEntries (others.foldl addEntry entries) =
        Phrase.keepLast (written ++ others.map bareEntry) := by
  induction others with
  | nil =>
      intro entries written kept
      simpa using kept
  | cons entry others ih =>
      intro entries written kept
      rw [List.foldl_cons, ih (bareEntries_addEntry kept entry), List.map_cons, List.append_assoc,
        List.singleton_append]

/-- Entries in curly brackets, with the places of their keys, as they were written. -/
inductive Braced : List Token → List ((Span × String) × Script) → Prop where
  | empty : Braced [.symbol .leftCurly, .symbol .rightCurly] []
  | entries {first rest : List Token} {entry : (Span × String) × Script}
      {others : List ((Span × String) × Script)} (head : Phrase.Entry first (bareEntry entry))
      (tail : Phrase.AfterCommas Phrase.Entry rest (others.map bareEntry)) :
      Braced (.symbol .leftCurly :: (first ++ (rest ++ [.symbol .rightCurly]))) (entry :: others)

theorem Braced.dictLiteral {words : List Token} {written : List ((Span × String) × Script)}
    (braced : Braced words written) (span : Span) :
    Phrase.DictLiteral words (Tree.dict span (written.foldl addEntry [])).bare := by
  cases braced with
  | empty => exact .empty
  | @entries first rest entry others head tail =>
      have single : Tree.bareEntries [entry] = Phrase.keepLast [bareEntry entry] :=
        (Phrase.keepLast_single (bareEntry entry)).symm
      have kept : Tree.bareEntries ((entry :: others).foldl addEntry []) =
          Phrase.keepLast (bareEntry entry :: others.map bareEntry) :=
        bareEntries_foldl_addEntry others single
      rw [Tree.bare, kept]
      exact .entries head tail

section

include ends below

theorem keeps_listLiteral (within : start ≤ last) :
    Keeps tokens last shallow (listLiteral level) start
      (Writes tokens Phrase.ListLiteral start) := by
  unfold listLiteral
  refine keeps_writes (Keeps.current ?_)
  refine (keeps_expectSymbol ends within _ _).passed fun _ inside => ?_
  refine Keeps.ifSymbol ends inside (fun stopInside => ?_) ?_
  · exact Keeps.pure_bind (Keeps.current (keeps_result stopInside ⟨by omega, .empty⟩))
  · refine ((below.expr _ (Nat.lt_succ_self start) inside).registerOr _).moved
      fun first _ afterFirst firstInside firstMoved head => ?_
    refine (keeps_afterCommas ends firstInside fun place behind placeInside =>
      ((below.expr place (by omega) placeInside).register.imp fun _ _ _ _ read => read.2)).words ?_
    intro others _ afterOthers othersMoved othersInside tail
    refine (keeps_expectSymbol ends othersInside _ _).passed fun _ stopInside => ?_
    refine Keeps.pure_bind (Keeps.current (keeps_result stopInside ⟨by omega, ?_⟩))
    rw [Tree.bare, Tree.bareAll, Tree.bareAll_eq_map]
    exact .items head tail

theorem keeps_dictEntry (behind : start < place) (within : place ≤ last) :
    Keeps tokens last shallow (dictEntry level) place
      (Worded tokens place fun words entry stop =>
        place < stop ∧ Phrase.Entry words (bareEntry entry)) := by
  refine ((below.expr place behind within).registerOr _).moved
    fun key _ afterKey keyInside keyMoved head => ?_
  cases key with
  | string span text =>
      refine (keeps_expectSymbol ends keyInside _ _).passed fun _ colonInside => ?_
      refine ((below.expr (afterKey + 1) (by omega) colonInside).registerOr _).moved
        fun value _ stop stopInside valueMoved tail => ?_
      refine keeps_result stopInside ⟨by omega, ?_⟩
      rw [List.append_nil]
      exact .pair head tail
  | _ => exact keeps_fail _ keyInside

theorem keeps_braced (within : start ≤ last) :
    Keeps tokens last shallow (dictLiteral level) start
      (Worded tokens start fun words tree stop => start < stop ∧ ∃ span written,
        Braced words written ∧ tree = .dict span (written.foldl addEntry [])) := by
  unfold dictLiteral
  refine Keeps.current ?_
  refine (keeps_expectSymbol ends within _ _).passed fun _ inside => ?_
  refine Keeps.ifSymbol ends inside (fun stopInside => ?_) ?_
  · exact Keeps.pure_bind (Keeps.current (keeps_result stopInside
      ⟨by omega, _, [], .empty, rfl⟩))
  · refine (keeps_dictEntry ends below (Nat.lt_succ_self start) inside).words ?_
    rintro first _ afterFirst _ firstInside ⟨firstMoved, head⟩
    refine (keeps_afterCommas ends firstInside fun place behind placeInside =>
      (keeps_dictEntry ends below (by omega) placeInside).imp fun _ _ _ _ read => read.2).words ?_
    intro others _ afterOthers othersMoved othersInside tail
    refine (keeps_expectSymbol ends othersInside _ _).passed fun _ stopInside => ?_
    exact Keeps.pure_bind (Keeps.current (keeps_result stopInside
      ⟨by omega, _, first :: others, .entries head tail, rfl⟩))

theorem keeps_dictLiteral (within : start ≤ last) :
    Keeps tokens last shallow (dictLiteral level) start
      (Writes tokens Phrase.DictLiteral start) := by
  apply (keeps_braced ends below within).imp
  rintro _ stop _ _ ⟨moved, span, written, braced, rfl⟩
  exact ⟨moved, braced.dictLiteral span⟩

end

/-! ### Bodies and branches -/

theorem BlockEnd.of_body {chain : Cases} {body : Script} {stop : Nat} (begun : start ≤ place)
    (moved : place < stop) (inside : stop ≤ tokens.size)
    (read : Phrase.Body (between tokens place stop) body.bare true) :
    BlockEnd tokens start chain body stop := by
  refine .closed begun moved ?_ read
  have final := between_trans tokens (Nat.le_sub_one_of_lt moved) (Nat.sub_le stop 1)
  rw [show between tokens (stop - 1) stop = between tokens (stop - 1) (stop - 1 + 1) by
    rw [Nat.sub_add_cancel (by omega)], between_one tokens (by omega)] at final
  have words := congrArg List.getLast? final
  generalize between tokens place stop = whole at read words
  cases read
  simpa [List.getLast?_cons] using words.symm

/-- What follows a case: cases, what holds otherwise, or nothing. -/
structure GoesOn (tokens : Array Placed) (start : Nat) (chain : Cases) (stop : Nat) : Prop where
  phrase : Phrase.MoreCases (between tokens start stop) (Tree.bareCases chain.1)
    (Tree.bareOtherwise chain.2)
  ends : EndsBlock tokens start chain stop
  nothing : lastBody chain = none → stop = start ∧
    (tokenAt tokens start).token ≠ .keyword .elifWord ∧
      (tokenAt tokens start).token ≠ .keyword .elseWord

/-- A chain with one more case in front ends as it did, unless it was empty: then the body of the
case is the last one. -/
theorem GoesOn.cons {body : Script} {block : Bool} {chain : Cases} {stop : Nat}
    (goesOn : GoesOn tokens place chain stop) (onward : start ≤ place) (condition : Script)
    (alone : block = true → chain.2 = none → stop = place →
      (∀ word ∈ [Keyword.elifWord, .elseWord], (tokenAt tokens place).token ≠ .keyword word) →
      BlockEnd tokens start chain body stop) :
    EndsBlock tokens start ((condition, body, block) :: chain.1, chain.2) stop := by
  have same : ∀ {final : Script} {earlier : Nat}, start ≤ earlier →
      BlockEnd tokens earlier chain final stop →
      BlockEnd tokens start ((condition, body, block) :: chain.1, chain.2) final stop := by
    intro final earlier later ended
    cases ended with
    | closed begun moved word read => exact .closed (Nat.le_trans later begun) moved word read
    | leftOpen begun moved read inner only behind =>
        exact .leftOpen (Nat.le_trans later begun) moved read inner only behind
  have front : lastBody ((condition, body, block) :: chain.1, chain.2) =
      some ((lastBody chain).getD (body, block)) := by
    obtain ⟨more, _ | other⟩ := chain
    · cases more <;> simp [lastBody, List.getLast?_cons]
    · rfl
  intro final found
  rw [front] at found
  cases known : lastBody chain with
  | some later =>
      rw [known] at found
      exact same onward (goesOn.ends final (known.trans found))
  | none =>
      rw [known] at found
      obtain ⟨rfl, rfl⟩ := Prod.mk.inj (Option.some.inj found)
      obtain ⟨rfl, noElif, noElse⟩ := goesOn.nothing known
      refine same (Nat.le_refl start) (alone rfl (Option.or_eq_none_iff.mp known).1 rfl ?_)
      simp [noElif, noElse]

section

include ends below

/-- A colon and the body behind it.  Loops and the last case of a branch make different
results from the body and its flag. -/
theorem keeps_body {α : Type} (make : Script → Bool → α) (onward : start ≤ place)
    (within : place ≤ last) :
    Keeps tokens last shallow
      (do
        expectSymbol .colon .colon
        if ← isBlock then
          advance
          let body ← register level.statements
          expectKeyword .endWord
          return make body true
        else
          let body ← register level.statement
          return make body false)
      place
      (Worded tokens place fun words result stop => place < stop ∧ ∃ body block,
        result = make body block ∧ Phrase.Body words body.bare block) := by
  refine (keeps_expectSymbol ends within _ _).passed fun _ colonInside => ?_
  refine Keeps.atToken isNewline_iff (fun line => ?_) (fun _ => ?_)
  · refine (keeps_pass ends colonInside line (by simp)).passed fun _ lineInside => ?_
    refine (below.statements _ (by omega) lineInside).register.moved
      fun body _ afterBody bodyInside bodyMoved inner => ?_
    refine (keeps_expectKeyword ends bodyInside _).passed fun _ stopInside => ?_
    exact keeps_result stopInside ⟨by omega, body, true, rfl, .lines inner⟩
  · refine (below.statement _ (by omega) colonInside).register.moved
      fun body _ stop stopInside bodyMoved inner => ?_
    refine keeps_result stopInside ⟨by omega, body, false, rfl, ?_⟩
    rw [List.append_nil]
    exact .inline inner

theorem keeps_loopBody (onward : start ≤ place) (within : place ≤ last) :
    Keeps tokens last shallow (loopBody level) place
      (Worded tokens place fun words result stop =>
        place < stop ∧ Phrase.Body words result.1.bare result.2) := by
  refine (keeps_body ends below Prod.mk onward within).imp ?_
  rintro _ stop _ _ ⟨moved, body, block, rfl, read⟩
  exact ⟨moved, read⟩

theorem keeps_otherwise (within : start ≤ last) :
    Keeps tokens last shallow (otherwise level) start
      (Worded tokens start fun words result stop =>
        Phrase.Otherwise words (Tree.bareOtherwise result) ∧
          EndsBlock tokens start ([], result) stop ∧ (result = none →
            stop = start ∧ (tokenAt tokens start).token ≠ .keyword .elseWord)) := by
  refine Keeps.ifKeyword ends within (fun inside => ?_) fun away => ?_
  · refine (keeps_body ends below (fun body block => some (body, block)) (Nat.le_succ start)
      inside).imp ?_
    rintro _ stop _ stopInside ⟨moved, body, block, rfl, read⟩
    refine ⟨.body read, ?_, fun none => by cases none⟩
    intro final same
    obtain ⟨rfl, rfl⟩ := Prod.mk.inj (Option.some.inj same)
    exact .of_body (Nat.le_succ start) moved (Nat.le_trans stopInside (Nat.le_of_lt ends.inside))
      read
  · refine keeps_result within ⟨.none, ?_, fun _ => ⟨rfl, away⟩⟩
    intro final same
    cases same

end

theorem keeps_moreCases (ends : EndsAt tokens last)
    (below : Level.Below tokens last shallow start level) (within : start ≤ last) :
    Keeps tokens last shallow (moreCases level) start (GoesOn tokens start) := by
  refine Keeps.atToken isKeyword_iff (fun _ => ?_) (fun noElif => ?_)
  · refine (below.cases _ start (Nat.le_refl start) within).register.imp ?_
    intro chain stop _ _ held
    obtain ⟨_, endsBlock, word, spelled, read⟩ := held
    rw [Keyword.spelling_injective spelled] at read
    refine ⟨.cases read, endsBlock, fun nothing => ?_⟩
    have empty : chain.1 = [] := List.getLast?_eq_none_iff.mp
      (Option.map_eq_none_iff.mp (Option.or_eq_none_iff.mp nothing).2)
    rw [empty] at read
    generalize between tokens start stop = words at read
    cases read
  · refine (keeps_otherwise ends (below.later (Nat.le_succ start)) within).register.bind ?_
    intro other stop _ inside held
    obtain ⟨read, endsBlock, nothing⟩ := held
    refine keeps_pure inside ⟨.otherwise read, endsBlock, fun none => ?_⟩
    obtain ⟨unmoved, noElse⟩ := nothing (Option.or_eq_none_iff.mp none).1
    exact ⟨unmoved, noElif, noElse⟩

section

include ends below

theorem keeps_cases (within : start ≤ last) (spelling : String) :
    Keeps tokens last shallow (cases level spelling) start
      (WritesCases tokens spelling start) := by
  unfold cases
  refine Keeps.current ?_
  cases here : (tokenAt tokens start).token with
  | keyword word =>
      by_cases spelled : word.spelling = spelling
      · simp only [if_pos spelled]
        change Keeps tokens last shallow _ start
          (Worded tokens start fun words chain stop => start < stop ∧
            EndsBlock tokens start chain stop ∧ ∃ word : Keyword, word.spelling = spelling ∧
              Phrase.Cases word words (Tree.bareCases chain.1) (Tree.bareOtherwise chain.2))
        refine (keeps_pass ends within here (by simp)).passed fun _ wordInside => ?_
        refine (below.expr _ (Nat.lt_succ_self start) wordInside).register.moved
          fun condition _ afterTest testInside testMoved test => ?_
        refine Keeps.compare ((keeps_expectSymbol ends testInside _ _).passed fun _ inside => ?_)
        refine Keeps.atToken isNewline_iff (fun line => ?_) (fun _ => ?_)
        · refine (keeps_pass ends inside line (by simp)).passed fun _ lineInside => ?_
          refine (below.statements _ (by omega) lineInside).register.moved
            fun body _ afterBody bodyInside bodyMoved inner => ?_
          refine Keeps.ifKeyword ends bodyInside (fun stopInside => ?_) fun notEnd => ?_
          · refine keeps_result stopInside fun same =>
              ⟨by omega, ?_, word, spelled, .closed test inner⟩
            intro final found
            obtain rfl := (Prod.mk.inj (Option.some.inj found)).1
            have written : Phrase.Body (between tokens afterTest (afterBody + 1)) body.bare true :=
              same ▸ .lines inner
            exact .of_body (by omega) (by omega)
              (Nat.le_trans stopInside (Nat.le_of_lt ends.inside)) written
          · apply (keeps_moreCases ends (below.later (by omega)) bodyInside).register.bind
            intro chain stop moved stopInside further
            refine keeps_pure stopInside fun same =>
              ⟨by omega, ?_, word, spelled, .lines test inner further.phrase⟩
            refine further.cons (by omega) condition ?_
            rintro _ only rfl noneBehind
            rw [between_self, List.append_nil] at same
            exact .leftOpen (by omega) (by omega) same.symm inner only
              (List.forall_mem_cons.mpr ⟨notEnd, noneBehind⟩)
        · refine (below.statement _ (by omega) inside).register.moved
            fun body _ afterBody bodyInside bodyMoved inner => ?_
          apply (keeps_moreCases ends (below.later (by omega)) bodyInside).register.bind
          intro chain stop moved stopInside further
          refine keeps_pure stopInside fun _ =>
            ⟨by omega, ?_, word, spelled, .inline test inner further.phrase⟩
          exact further.cons (by omega) condition fun block => by cases block
      · simp only [if_neg spelled]
        exact keeps_fail_bind _ within
  | _ => exact keeps_fail_bind _ within

theorem keeps_branch (within : start ≤ last) :
    Keeps tokens last shallow (branch level) start (Writes tokens Phrase.Branch start) := by
  apply (keeps_cases ends below within _).register.bind
  rintro chain stop _ inside ⟨moved, _, word, spelled, read⟩
  rw [Keyword.spelling_injective spelled] at read
  exact keeps_pure inside ⟨moved, .cases read⟩

/-! ### Loops -/

theorem keeps_forLoop (within : start ≤ last) :
    Keeps tokens last shallow (forLoop level) start (Writes tokens Phrase.ForLoop start) := by
  unfold forLoop
  refine keeps_writes ?_
  apply (keeps_expectKeyword ends within _).bind
  rintro _ _ _ wordInside ⟨rfl, opening⟩
  apply (keeps_expectName ends wordInside _).bind
  rintro ⟨name, placed⟩ _ _ nameInside ⟨rfl, named⟩
  have begins : between tokens start (start + 1 + 1) =
      [.keyword .forWord, .identifier name] := by
    rw [between_cons opening (Nat.le_succ _), named]
  refine Keeps.resume (by omega) begins (Keeps.ifSymbol ends nameInside
    (fun assignInside => ?_) ?_)
  · refine (below.expr _ (by omega) assignInside).register.moved
      fun first _ afterFirst firstInside firstMoved head => ?_
    refine (keeps_expectKeyword ends firstInside _).passed fun _ toInside => ?_
    refine (below.expr _ (by omega) toInside).register.moved
      fun limit _ afterLimit limitInside limitMoved tail => ?_
    refine Keeps.ifKeyword ends limitInside (fun stepInside => ?_) fun _ => ?_
    · refine (below.expr _ (by omega) stepInside).register.moved
        fun stride _ afterStride strideInside strideMoved behind => ?_
      refine Keeps.pure_bind ((keeps_loopBody ends below (by omega) strideInside).words ?_)
      rintro ⟨body, block⟩ _ stop _ stopInside ⟨bodyMoved, inner⟩
      refine keeps_result stopInside ⟨by omega, ?_⟩
      rw [List.append_nil]
      exact .stride head tail behind inner
    · refine Keeps.pure_bind ((keeps_loopBody ends below (by omega) limitInside).words ?_)
      rintro ⟨body, block⟩ _ stop _ stopInside ⟨bodyMoved, inner⟩
      refine keeps_result stopInside ⟨by omega, ?_⟩
      rw [List.append_nil]
      exact .count head tail inner
  · refine Keeps.atToken isKeyword_iff (fun here => ?_) fun _ => keeps_fail _ nameInside
    apply (keeps_pass ends nameInside here (by simp)).bind
    rintro _ _ _ inInside ⟨rfl, inWord⟩
    apply (below.expr _ (by omega) inInside).register.bind
    rintro collection afterItems _ itemsInside ⟨itemsMoved, head⟩
    apply (keeps_loopBody ends below (by omega) itemsInside).bind
    rintro ⟨body, block⟩ stop _ stopInside ⟨bodyMoved, inner⟩
    have rest : between tokens (start + 1 + 1) stop = .keyword .inWord ::
        (between tokens (start + 1 + 1 + 1) afterItems ++ between tokens afterItems stop) := by
      rw [between_cons inWord (by omega : start + 1 + 1 + 1 ≤ stop),
        between_trans tokens (Nat.le_of_lt itemsMoved) (Nat.le_of_lt bodyMoved)]
    cases block with
    | false =>
        refine keeps_inlineForEach ⟨start, stop, stopInside, ?_⟩
        rw [between_trans tokens (by omega : start ≤ start + 1 + 1) (by omega), begins, rest]
        generalize between tokens afterItems stop = line at inner
        cases inner with
        | inline inner => exact ⟨_, _, _, _, _, rfl, head, inner⟩
    | true =>
        refine keeps_pure stopInside ⟨by omega, ?_⟩
        rw [rest]
        exact .each head inner

theorem keeps_whileLoop (within : start ≤ last) :
    Keeps tokens last shallow (whileLoop level) start (Writes tokens Phrase.WhileLoop start) := by
  unfold whileLoop
  refine keeps_writes ((keeps_expectKeyword ends within _).passed fun _ wordInside => ?_)
  refine (below.expr _ (Nat.lt_succ_self start) wordInside).register.moved
    fun condition _ afterTest testInside testMoved test => ?_
  refine (keeps_loopBody ends below (by omega) testInside).words ?_
  rintro ⟨body, block⟩ _ stop _ stopInside ⟨bodyMoved, inner⟩
  refine keeps_result stopInside ⟨by omega, ?_⟩
  rw [List.append_nil]
  exact .loop test inner

/-! ### Functions and calls -/

theorem keeps_optionalPart (onward : start ≤ place) (within : place ≤ last) :
    Keeps tokens last shallow (optionalPart level) place
      (Worded tokens place fun words result _ =>
        Phrase.Named words (result.1, result.2.bare)) := by
  unfold optionalPart
  refine (keeps_expectName ends within _).passed fun pair nameInside => ?_
  obtain ⟨name, placed⟩ := pair
  refine (keeps_expectSymbol ends nameInside _ _).passed fun _ assignInside => ?_
  refine (below.atom _ (by omega) assignInside).register.moved
    fun value _ stop stopInside moved read => ?_
  refine keeps_result stopInside ?_
  rw [List.append_nil]
  exact .given read

theorem keeps_optionalParts (onward : start ≤ place) (within : place ≤ last) :
    Keeps tokens last shallow (afterCommas (optionalPart level)) place
      (Worded tokens place fun words results _ =>
        Phrase.AfterCommas Phrase.Named words (Tree.bareNamed results)) := by
  refine (keeps_afterCommas ends within fun further behind inside =>
    keeps_optionalPart ends below (by omega) inside).imp ?_
  intro results stop _ _ read
  rw [Worded, Tree.bareNamed_eq_map]
  exact read

omit below in
theorem keeps_names (within : start ≤ last) :
    Keeps tokens last shallow (afterCommas (expectName .name)) start
      (Worded tokens start fun words results _ =>
        Phrase.AfterCommas Phrase.Name words (results.map Prod.fst)) :=
  keeps_afterCommas ends within fun _ _ inside =>
    (keeps_expectName ends inside .name).imp fun _ _ _ _ passed => passed.2

theorem keeps_parameters (onward : start ≤ place) (within : place ≤ last) :
    Keeps tokens last shallow (parameters level) place
      (Worded tokens place fun words result _ =>
        Phrase.Parameters words (result.1.map Prod.fst) (Tree.bareNamed result.2)) := by
  unfold parameters
  refine (keeps_expectName ends within _).passed fun first firstInside => ?_
  refine (keeps_names ends firstInside).words ?_
  intro others _ afterOthers othersMoved othersInside tail
  refine Keeps.ifSymbol ends othersInside (fun assignInside => ?_) ?_
  · refine (below.atom _ (by omega) assignInside).register.moved
      fun value _ afterValue valueInside valueMoved given => ?_
    refine (keeps_optionalParts ends below (by omega) valueInside).words ?_
    intro more _ stop moreMoved stopInside further
    refine keeps_result stopInside ?_
    have ending : first.1 :: others.map Prod.fst =
        (first :: others).dropLast.map Prod.fst ++
          [((first :: others).getLast?.getD first).1] := by
      have split := List.dropLast_append_getLast (List.cons_ne_nil first others)
      have last : (first :: others).getLast?.getD first =
          (first :: others).getLast (List.cons_ne_nil first others) := by
        rw [List.getLast?_eq_getLast_of_ne_nil (List.cons_ne_nil first others), Option.getD_some]
      rw [last, ← List.map_singleton, ← List.map_append, split, List.map_cons]
    rw [List.append_nil]
    exact .optional tail ending given further
  · refine keeps_result othersInside ?_
    rw [List.append_nil]
    exact .positional tail

theorem keeps_parameterList (onward : start ≤ place) (within : place ≤ last) :
    Keeps tokens last shallow (parameterList level) place
      (Worded tokens place fun words result stop => place < stop ∧ ∃ inner,
        words = inner ++ [.symbol .rightParen] ∧
          Phrase.Parameters inner (result.1.map Prod.fst) (Tree.bareNamed result.2)) := by
  have empty : Keeps tokens last shallow
      (do
        expectSymbol .rightParen .nameOrCloseParen
        return (([], []) : List (String × Placed) × List (String × Script)))
      place
      (Worded tokens place fun words result stop => place < stop ∧ ∃ inner,
        words = inner ++ [.symbol .rightParen] ∧
          Phrase.Parameters inner (result.1.map Prod.fst) (Tree.bareNamed result.2)) := by
    refine (keeps_expectSymbol ends within _ _).passed fun _ stopInside => ?_
    exact keeps_result stopInside ⟨Nat.lt_succ_self place, [], rfl, .none⟩
  unfold parameterList
  refine Keeps.current ?_
  cases here : (tokenAt tokens place).token with
  | identifier name =>
      refine (keeps_parameters ends below onward within).words ?_
      intro names _ afterNames moved namesInside read
      refine (keeps_expectSymbol ends namesInside _ _).passed fun _ stopInside => ?_
      exact keeps_result stopInside ⟨by omega, _, rfl, read⟩
  | _ => exact empty

omit below in
theorem keeps_functionHead (within : start ≤ last) :
    Keeps tokens last shallow functionHead start
      (Worded tokens start fun words result stop => start < stop ∧
        words = ((result.map Prod.fst).map Token.identifier).toList ++
          [.symbol .leftParen]) := by
  have anonymous : Keeps tokens last shallow
      (do
        expectSymbol .leftParen .nameOrOpenParen
        return (none : Option (String × Placed)))
      start
      (Worded tokens start fun words result stop => start < stop ∧
        words = ((result.map Prod.fst).map Token.identifier).toList ++
          [.symbol .leftParen]) := by
    refine (keeps_expectSymbol ends within _ _).passed fun _ stopInside => ?_
    exact keeps_result stopInside ⟨Nat.lt_succ_self start, rfl⟩
  unfold functionHead
  refine Keeps.current ?_
  cases here : (tokenAt tokens start).token with
  | identifier name =>
      refine (keeps_pass ends within here (by simp)).passed fun _ nameInside => ?_
      refine (keeps_expectSymbol ends nameInside _ _).passed fun _ stopInside => ?_
      exact keeps_result stopInside ⟨by omega, rfl⟩
  | _ => exact anonymous

theorem keeps_functionBody (onward : start ≤ place) (within : place ≤ last) :
    Keeps tokens last shallow (functionBody level) place
      (Worded tokens place fun words result stop =>
        place < stop ∧ Phrase.FunctionBody words result.1.bare result.2) := by
  unfold functionBody
  refine Keeps.ifSymbol ends within (fun arrowInside => ?_) ?_
  · refine (below.expr _ (by omega) arrowInside).register.moved
      fun body _ stop stopInside moved inner => ?_
    refine keeps_result stopInside ⟨by omega, ?_⟩
    rw [List.append_nil]
    exact .arrow inner
  · refine (keeps_expectSymbol ends within _ _).passed fun _ curlyInside => ?_
    refine Keeps.atToken isNewline_iff (fun line => ?_) (fun _ => keeps_fail_bind _ curlyInside)
    refine (keeps_pass ends curlyInside line (by simp)).passed fun _ lineInside => ?_
    refine (below.statements _ (by omega) lineInside).register.moved
      fun body _ afterBody bodyInside bodyMoved inner => ?_
    refine (keeps_expectSymbol ends bodyInside _ _).passed fun _ stopInside => ?_
    exact keeps_result stopInside ⟨by omega, .lines inner⟩

theorem keeps_functionDefinition (within : start ≤ last) :
    Keeps tokens last shallow (functionDefinition level) start
      (Writes tokens Phrase.Function start) := by
  unfold functionDefinition
  refine keeps_writes ((keeps_expectKeyword ends within _).passed fun _ wordInside => ?_)
  refine (keeps_functionHead ends wordInside).words ?_
  rintro head _ afterHead _ headInside ⟨headMoved, rfl⟩
  refine (keeps_parameterList ends below (by omega) headInside).words ?_
  rintro ⟨names, optional⟩ _ afterNames _ namesInside ⟨namesMoved, inner, rfl, read⟩
  refine (keeps_functionBody ends below (by omega) namesInside).words ?_
  rintro ⟨body, yields⟩ _ stop _ stopInside ⟨bodyMoved, content⟩
  refine keeps_result stopInside ⟨by omega, ?_⟩
  simp only [List.append_nil, List.append_assoc, List.singleton_append]
  exact .define rfl read content

theorem keeps_arguments (behind : start < place) (within : place ≤ last) :
    Keeps tokens last shallow (arguments level) place
      (Worded tokens place fun words result _ =>
        Phrase.Arguments words (Tree.bareAll result.1) (Tree.bareNamed result.2)) := by
  unfold arguments
  refine ((below.expr place behind within).registerOr _).moved
    fun first _ afterFirst firstInside firstMoved head => ?_
  refine (keeps_afterCommas ends firstInside fun further ahead inside =>
    ((below.expr further (by omega) inside).register.imp fun _ _ _ _ read => read.2)).words ?_
  intro others _ afterOthers othersMoved othersInside tail
  refine Keeps.atToken isSymbol_iff (fun assigned => ?_) (fun _ => ?_)
  · -- The last of the operands was the name of a named one, if it is a name at all.
    have split := List.dropLast_append_getLast (List.cons_ne_nil first others)
    have ending : (first :: others).getLast? =
        some ((first :: others).getLast (List.cons_ne_nil first others)) :=
      List.getLast?_eq_getLast_of_ne_nil (List.cons_ne_nil first others)
    cases final : (first :: others).getLast (List.cons_ne_nil first others) with
    | access span name owner =>
        rw [final] at split ending
        simp only [ending, if_true]
        refine (keeps_pass ends othersInside assigned (by simp)).passed fun _ assignInside => ?_
        refine ((below.expr _ (by omega) assignInside).registerOr _).moved
          fun value _ afterValue valueInside valueMoved given => ?_
        refine (keeps_optionalParts ends below (by omega) valueInside).words ?_
        intro more _ stop moreMoved stopInside further
        refine keeps_result stopInside ?_
        have last : first.bare :: others.map Tree.bare =
            Tree.bareAll (first :: others).dropLast ++ [.access () name owner] := by
          have named : (Tree.access span name owner).bare = .access () name owner := rfl
          rw [Tree.bareAll_eq_map, ← named, ← List.map_singleton, ← List.map_append, split,
            List.map_cons]
        rw [List.append_nil]
        exact .optional head tail last given further
    | _ =>
        rw [final] at ending
        simp only [ending, if_true]
        exact keeps_fail _ othersInside
  · refine keeps_result othersInside ?_
    rw [List.append_nil, Tree.bareAll, Tree.bareAll_eq_map]
    exact .positional head tail

end

end Grammar

end Lingo
