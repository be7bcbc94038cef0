/-
Constructs made of operands and blocks.

Each bracketed or keyword construct is read back from its words, if the words of its parts
are.  Parts that are expressions are operands: they hold together by themselves.
-/

import Lingo.Proofs.Grammar.Lines

namespace Lingo.Grammar

open Rule

variable {pieces named : List (String × List Token × Bare)}

/-- Words that hold together by themselves spell a tree. -/
abbrev Operand (words : List Token) (tree : Bare) : Prop :=
  Spells anyToken 9 words tree

variable {good : Token → Prop} {words rest : List Token} {tree : Bare} {depth : Nat}

abbrev Phrase (words : List Token) (tree : Bare) : Prop :=
  Spells anyToken 0 words tree

theorem Operand.phrase (operand : Operand words tree) : Phrase words tree :=
  operand.le (Nat.le_refl 9) (Nat.zero_le 9)

theorem Phrase.parses_expr (phrase : Phrase words tree)
    (ended : Begins (fun token => token.pull = 0) rest) :
    Parses expr (words ++ rest) rest fun result => result.bare = tree := by
  have loose : Begins (fun token => token.pull ≤ 0) rest := ended.imp fun _ => Nat.le_of_eq
  exact phrase.parses rest (Begins.anyToken ended) loose

theorem Phrase.reads_expr (phrase : Phrase words tree)
    (ended : Begins (fun token => token.pull = 0) rest) (shorter : (words ++ rest).length < depth) :
    Reads (Level.of depth).expr (words ++ rest) rest fun result => result.bare = tree :=
  (phrase.parses_expr ended).down Level.expr (fun _ => rfl) shorter

theorem Operand.reads_expr (operand : Operand words tree)
    (ended : Begins (fun token => token.pull = 0) rest) (shorter : (words ++ rest).length < depth) :
    Reads (Level.of depth).expr (words ++ rest) rest fun result => result.bare = tree :=
  operand.phrase.reads_expr ended shorter

theorem Phrase.run_script (phrase : Phrase words tree) {tokens : List Placed}
    (written : tokens.map Placed.token = words ++ [.eof]) :
    ∃ result after, run script tokens = .ok (.success result, after) ∧
      result.bare = .list () [tree] := by
  have states : ∀ line ∈ [(words, tree)],
      States (fun token => token.ends = true) line.1 line.2 := by
    intro line member
    rw [List.mem_singleton.mp member]
    exact (phrase.mono fun _ _ => trivial).states fun _ => Token.closes_of_ends
  have oneLine : separated .newline [words] = words := List.append_nil _
  rw [← oneLine] at written
  exact run_script_of_states written states

/-! ### Literals and names -/

theorem operand_int (n : Nat) : Operand [.int n] (.number () (.int n)) := by
  refine ⟨Nat.lt_succ_self 9, ?_⟩
  intro rest _ _ depth _
  change Reads (atom (Level.of depth)) _ rest _
  unfold atom
  apply Reads.current
  intro placed here
  rw [here]
  apply Reads.advance
  exact reads_pure rfl

theorem operand_string (text : String) : Operand [.string text] (.string () text) := by
  refine ⟨Nat.lt_succ_self 9, ?_⟩
  intro rest _ _ depth _
  change Reads (atom (Level.of depth)) _ rest _
  unfold atom
  apply Reads.current
  intro placed here
  rw [here]
  apply Reads.advance
  exact reads_pure rfl

theorem operand_name (name : String) : Operand [.identifier name] (.access () name none) := by
  refine ⟨Nat.lt_succ_self 9, ?_⟩
  intro rest _ loose depth _
  have noDot : Begins (· ≠ .symbol .dot) rest := by
    apply loose.imp
    intro token bound same
    rw [same] at bound
    exact absurd bound (by decide)
  change Reads (atom (Level.of depth)) _ rest _
  unfold atom
  apply Reads.current
  intro placed here
  rw [here]
  apply Reads.advance
  apply Reads.notAtSymbol noDot
  exact reads_pure rfl

theorem operand_member (owner name : String) :
    Operand [.identifier owner, .symbol .dot, .identifier name] (.access () name (some owner)) := by
  refine ⟨Nat.lt_succ_self 9, ?_⟩
  intro rest _ _ depth _
  change Reads (atom (Level.of depth)) _ rest _
  unfold atom
  apply Reads.current
  intro placed here
  rw [here]
  apply Reads.advance
  apply Reads.atSymbol
  apply Reads.advance
  apply (reads_expectName name _).bind
  intro found same
  apply reads_pure
  rw [Tree.bare, same]

theorem Operand.assign (name : String) (value : Operand words tree) :
    Spells anyToken 0 (.keyword .varWord :: .identifier name :: .symbol .assign :: words)
      (.assign () name tree) := by
  refine ⟨Nat.zero_lt_one, ?_⟩
  intro rest _ loose depth enough
  have ended : Begins (fun token => token.pull = 0) rest := loose.imp fun _ => Nat.le_zero.mp
  have shorter : (words ++ rest).length < depth := by
    simp only [List.cons_append, List.length_cons] at enough
    omega
  change Reads (expr (Level.of depth)) _ rest _
  unfold expr
  apply Reads.atKeyword
  apply Reads.advance
  apply (reads_expectName name _).bind
  intro found same
  apply (reads_expectSymbol .assign _).bind
  intro _ _
  apply (value.reads_expr ended shorter).register.bind
  intro result sameValue
  apply reads_pure
  rw [Tree.bare, same, sameValue]

/-! ### Operands behind commas -/

abbrev Phrases (pieces : List (List Token × Bare)) : Prop :=
  ∀ piece ∈ pieces, Phrase piece.1 piece.2

abbrev Operands (pieces : List (List Token × Bare)) : Prop :=
  ∀ piece ∈ pieces, Operand piece.1 piece.2

theorem Operands.phrases {pieces : List (List Token × Bare)} (operands : Operands pieces) :
    Phrases pieces :=
  fun piece member => (operands piece member).phrase

/-- What may follow an operand that commas separate from others. -/
def stopsAtComma (token : Token) : Prop :=
  token.pull = 0 ∧ token ≠ .symbol .comma

theorem begins_commas {γ : Type} {spelling : γ → List Token} {pieces : List γ} {tail : List Token}
    (ended : Begins stopsAtComma tail) :
    Begins (fun token => token.pull = 0)
      (pieces.flatMap (fun piece => .symbol .comma :: spelling piece) ++ tail) := by
  cases pieces with
  | nil => exact ended.imp fun _ both => both.1
  | cons piece pieces => exact rfl

def ReadsEach {α γ : Type} (rule : Rule α) (spelling : γ → List Token) (holds : γ → α → Prop)
    (bound : Nat) (pieces : List γ) : Prop :=
  ∀ piece ∈ pieces, ∀ rest : List Token, Begins (fun token => token.pull = 0) rest →
    (spelling piece ++ rest).length < bound →
      Reads rule (spelling piece ++ rest) rest (holds piece)

theorem reads_separated {α β γ : Type} {head part : Rule α} {next : α → List α → Rule β}
    {spelling : γ → List Token} {holds : γ → α → Prop} {post : β → Prop} {bound : Nat}
    {pieces : List γ} {tail left : List Token} (some : pieces ≠ [])
    (opens : ReadsEach head spelling holds bound pieces)
    (each : ReadsEach part spelling holds bound pieces) (ended : Begins stopsAtComma tail)
    (fits : (separated (.symbol .comma) (pieces.map spelling) ++ tail).length < bound)
    (goesOn : ∀ first others, List.Forall₂ holds pieces (first :: others) →
      Reads (next first others) tail left post) :
    Reads (head >>= fun first => afterCommas part >>= next first)
      (separated (.symbol .comma) (pieces.map spelling) ++ tail) left post := by
  cases pieces with
  | nil => exact absurd rfl some
  | cons piece pieces =>
      rw [List.map_cons, separated, List.append_assoc, List.flatMap_map] at fits ⊢
      have shorter := fits
      rw [List.length_append] at shorter
      apply (opens piece List.mem_cons_self _ (begins_commas ended) fits).bind
      intro first same
      apply (reads_afterCommas (fun other member => each other (List.mem_cons_of_mem _ member)) rfl
        (ended.imp fun _ both => both.1) (ended.imp fun _ both => both.2) (by omega)).bind
      intro others all
      exact goesOn first others (.cons same all)

theorem Phrases.each {pieces : List (List Token × Bare)} (phrases : Phrases pieces) :
    ReadsEach (Level.of depth).expr Prod.fst (fun piece result => result.bare = piece.2) depth
      pieces :=
  fun piece member _ closes shorter => (phrases piece member).reads_expr closes shorter

theorem ReadsEach.register {α γ : Type} {rule : Rule α} {spelling : γ → List Token}
    {holds : γ → α → Prop} {bound : Nat} {pieces : List γ}
    (each : ReadsEach rule spelling holds bound pieces) :
    ReadsEach (register rule) spelling holds bound pieces :=
  fun piece member rest closes shorter => (each piece member rest closes shorter).register

theorem ReadsEach.registerOr {α γ : Type} {rule : Rule α} {spelling : γ → List Token}
    {holds : γ → α → Prop} {bound : Nat} {pieces : List γ} (expected : Expectation)
    (each : ReadsEach rule spelling holds bound pieces) :
    ReadsEach (registerOr expected rule) spelling holds bound pieces :=
  fun piece member rest closes shorter => (each piece member rest closes shorter).registerOr expected

theorem not_of_opening {token other : Token} {rank : Nat} (tight : rank < token.opening)
    (closed : other.opening = 0) : token ≠ other := by
  intro same
  rw [same, closed] at tight
  exact Nat.not_lt_zero rank tight

/-! ### Bracketed literals -/

/-- The rule that an atom is left to by its first token. -/
def construct? : Token → Option (Level → Rule Script)
  | .symbol .leftSquare => some listLiteral
  | .symbol .leftCurly => some dictLiteral
  | .keyword .ifWord => some branch
  | .keyword .forWord => some forLoop
  | .keyword .whileWord => some whileLoop
  | .keyword .funcWord => some functionDefinition
  | _ => none

theorem opening_of_construct? {token : Token} {rule : Level → Rule Script}
    (chosen : construct? token = some rule) : 9 < token.opening := by
  unfold construct? at chosen
  split at chosen <;> first | exact Nat.lt_succ_self 9 | cases chosen

theorem Parses.construct {token : Token} {rule : Level → Rule Script} {post : Script → Prop}
    (parses : Parses rule (token :: words) rest post) (chosen : construct? token = some rule) :
    Parses Grammar.atom (token :: words) rest post := by
  intro depth enough
  have reads := (parses depth enough).register
  unfold Grammar.atom
  apply Reads.current
  intro placed here
  rw [here]
  unfold construct? at chosen
  split at chosen <;> cases chosen <;> exact reads

theorem parses_listLiteral {pieces : List (List Token × Bare)} (phrases : Phrases pieces) :
    Parses listLiteral
      (.symbol .leftSquare :: (separated (.symbol .comma) (pieces.map Prod.fst) ++
        .symbol .rightSquare :: rest))
      rest fun result => result.bare = .list () (pieces.map Prod.snd) := by
  intro depth enough
  have ended : Begins stopsAtComma (.symbol .rightSquare :: rest) := ⟨rfl, by simp⟩
  unfold listLiteral
  apply Reads.anyCurrent
  intro start
  apply (reads_expectSymbol .leftSquare _).bind
  intro _ _
  cases pieces with
  | nil =>
      apply Reads.atSymbol
      apply Reads.advance
      apply Reads.pure_bind
      apply Reads.anyCurrent
      intro stop
      exact reads_pure rfl
  | cons piece pieces =>
      have opening := (phrases piece List.mem_cons_self).opening
      apply Reads.notAtSymbol
        (((opening.append _).append _).imp fun _ tight => not_of_opening tight rfl)
      apply reads_separated (List.cons_ne_nil piece pieces) (phrases.each.registerOr _)
        phrases.each.register ended (Nat.lt_of_succ_le enough)
      intro first others all
      apply (reads_expectSymbol .rightSquare _).bind
      intro _ _
      apply Reads.pure_bind
      apply Reads.anyCurrent
      intro stop
      apply reads_pure
      rw [Tree.bare, map_bare_of_forall₂ all]

abbrev NamedPhrases (pieces : List (String × List Token × Bare)) : Prop :=
  ∀ piece ∈ pieces, Phrase piece.2.1 piece.2.2

abbrev NamedOperands (pieces : List (String × List Token × Bare)) : Prop :=
  ∀ piece ∈ pieces, Operand piece.2.1 piece.2.2

theorem NamedOperands.phrases (operands : NamedOperands pieces) : NamedPhrases pieces :=
  fun piece member => (operands piece member).phrase

def entrySpelling (piece : String × List Token × Bare) : List Token :=
  .string piece.1 :: .symbol .colon :: piece.2.1

theorem reads_dictEntry {piece : String × List Token × Bare}
    (phrase : Phrase piece.2.1 piece.2.2) (ended : Begins (fun token => token.pull = 0) rest)
    (shorter : (entrySpelling piece ++ rest).length < depth) :
    Reads (dictEntry (Level.of depth)) (entrySpelling piece ++ rest) rest
      fun entry => entry.1.2 = piece.1 ∧ entry.2.bare = piece.2.2 := by
  have colon : Begins (fun token => token.pull = 0) (.symbol .colon :: (piece.2.1 ++ rest)) := rfl
  have fits : (piece.2.1 ++ rest).length < depth := by
    simp only [entrySpelling, List.cons_append, List.length_cons] at shorter
    omega
  unfold dictEntry
  apply (((operand_string piece.1).reads_expr colon shorter).registerOr _).bind
  intro result same
  cases result with
  | string place key =>
      have sameKey : key = piece.1 := by
        injection same
      apply (reads_expectSymbol .colon _).bind
      intro _ _
      apply ((phrase.reads_expr ended fits).registerOr _).bind
      intro value sameValue
      exact reads_pure ⟨sameKey, sameValue⟩
  | _ => cases same

theorem foldl_addEntry_of_nodup (others : List ((Span × String) × Script)) :
    ∀ {entries : List ((Span × String) × Script)},
      ((entries ++ others).map fun entry => entry.1.2).Nodup →
      others.foldl addEntry entries = entries ++ others := by
  induction others with
  | nil =>
      intro entries _
      rw [List.foldl_nil, List.append_nil]
  | cons entry others ih =>
      intro entries distinct
      have fresh : ¬ entries.any (·.1.2 == entry.1.2) = true := by
        intro known
        obtain ⟨old, member, same⟩ := List.any_eq_true.mp known
        rw [List.map_append, List.nodup_append] at distinct
        exact distinct.2.2 _ (List.mem_map_of_mem member) _ (List.mem_map_of_mem List.mem_cons_self)
          (eq_of_beq same)
      have added : addEntry entries entry = entries ++ [entry] := if_neg fresh
      rw [List.foldl_cons, added, ih, List.append_assoc, List.singleton_append]
      rw [List.append_assoc, List.singleton_append]
      exact distinct

theorem bareEntries_of_forall₂ {results : List ((Span × String) × Script)}
    (all : List.Forall₂ (fun piece entry => entry.1.2 = piece.1 ∧ entry.2.bare = piece.2.2)
      pieces results) :
    Tree.bareEntries results = pieces.map fun piece => (((), piece.1), piece.2.2) := by
  induction all with
  | nil => rfl
  | cons both _ ih =>
      rw [Tree.bareEntries_eq_map, List.map_cons, both.1, both.2, List.map_cons,
        ← Tree.bareEntries_eq_map, ih]

theorem parses_dictLiteral (phrases : NamedPhrases pieces)
    (distinct : (pieces.map Prod.fst).Nodup) :
    Parses dictLiteral
      (.symbol .leftCurly :: (separated (.symbol .comma) (pieces.map entrySpelling) ++
        .symbol .rightCurly :: rest))
      rest fun result =>
        result.bare = .dict () (pieces.map fun piece => (((), piece.1), piece.2.2)) := by
  intro depth enough
  have ended : Begins stopsAtComma (.symbol .rightCurly :: rest) := ⟨rfl, by simp⟩
  unfold dictLiteral
  apply Reads.anyCurrent
  intro start
  apply (reads_expectSymbol .leftCurly _).bind
  intro _ _
  cases pieces with
  | nil =>
      apply Reads.atSymbol
      apply Reads.advance
      apply Reads.pure_bind
      apply Reads.anyCurrent
      intro stop
      exact reads_pure rfl
  | cons piece pieces =>
      have each : ReadsEach (dictEntry (Level.of depth)) entrySpelling
          (fun piece entry => entry.1.2 = piece.1 ∧ entry.2.bare = piece.2.2) depth
          (piece :: pieces) :=
        fun piece member _ closes shorter => reads_dictEntry (phrases piece member) closes shorter
      apply Reads.notAtSymbol (by simp [Begins, separated, entrySpelling])
      apply reads_separated (List.cons_ne_nil piece pieces) each each ended
        (Nat.lt_of_succ_le enough)
      intro result results all
      apply (reads_expectSymbol .rightCurly _).bind
      intro _ _
      apply Reads.pure_bind
      apply Reads.anyCurrent
      intro stop
      have whole := bareEntries_of_forall₂ all
      have names := congrArg (List.map fun entry => entry.1.2) whole
      rw [Tree.bareEntries_eq_map, List.map_map, List.map_map] at names
      have keys : ((result :: results).map fun entry => entry.1.2).Nodup := by
        change (((result :: results).map fun entry => entry.1.2) = _) at names
        rw [names]
        exact distinct
      have kept : results.foldl addEntry [result] = result :: results :=
        foldl_addEntry_of_nodup results keys
      apply reads_pure
      rw [kept, Tree.bare, whole]

/-! ### Arguments and parameters -/

def namedSpelling (piece : String × List Token × Bare) : List Token :=
  .identifier piece.1 :: .symbol .assign :: piece.2.1

abbrev ReadsNamed (piece : String × List Token × Bare) (result : String × Script) : Prop :=
  result.1 = piece.1 ∧ result.2.bare = piece.2.2

theorem bareNamed_of_forall₂ {results : List (String × Script)}
    (all : List.Forall₂ ReadsNamed pieces results) :
    Tree.bareNamed results = pieces.map fun piece => (piece.1, piece.2.2) := by
  induction all with
  | nil => rfl
  | cons both _ ih => rw [Tree.bareNamed, both.1, both.2, ih, List.map_cons]

theorem Operand.reads_atom (operand : Operand words tree)
    (ended : Begins (fun token => token.pull = 0) rest) (shorter : (words ++ rest).length < depth) :
    Reads (Level.of depth).atom (words ++ rest) rest fun result => result.bare = tree := by
  have loose : Begins (fun token => token.pull ≤ 9) rest := ended.imp fun _ none => by omega
  exact (operand.parses rest (Begins.anyToken ended) loose).down Level.atom (fun _ => rfl) shorter

theorem NamedOperands.reads {tail : List Token} (operands : NamedOperands pieces)
    (ended : Begins stopsAtComma tail)
    (fits : (pieces.flatMap (fun piece => .symbol .comma :: namedSpelling piece) ++ tail).length ≤
      depth) :
    Reads (afterCommas (optionalPart (Level.of depth)))
      (pieces.flatMap (fun piece => .symbol .comma :: namedSpelling piece) ++ tail) tail
      (List.Forall₂ ReadsNamed pieces) := by
  have each : ReadsEach (optionalPart (Level.of depth)) namedSpelling ReadsNamed depth pieces := by
    intro piece member rest overRest shorter
    have inside : (piece.2.1 ++ rest).length < depth := by
      simp only [namedSpelling, List.cons_append, List.length_cons] at shorter
      omega
    unfold optionalPart
    apply (reads_expectName piece.1 _).bind
    intro found same
    apply (reads_expectSymbol .assign _).bind
    intro _ _
    apply ((operands piece member).reads_atom overRest inside).register.bind
    intro value sameValue
    exact reads_pure ⟨same, sameValue⟩
  exact reads_afterCommas each rfl (ended.imp fun _ both => both.1) (ended.imp fun _ both => both.2)
    fits

theorem forall₂_concat {γ δ : Type} {known : γ → δ → Prop} {pieces : List γ} {last : γ}
    {results : List δ} (all : List.Forall₂ known (pieces ++ [last]) results) :
    ∃ others final, results = others ++ [final] ∧ List.Forall₂ known pieces others ∧
      known last final := by
  induction pieces generalizing results with
  | nil =>
      cases all with
      | cons same rest =>
          cases rest
          exact ⟨[], _, rfl, List.Forall₂.nil, same⟩
  | cons piece pieces ih =>
      cases all with
      | cons same rest =>
          obtain ⟨others, final, rfl, before, sameLast⟩ := ih rest
          exact ⟨_ :: others, final, rfl, List.Forall₂.cons same before, sameLast⟩

theorem eq_access_of_bare {script : Script} {name : String} {owner : Option String}
    (same : script.bare = .access () name owner) : ∃ place, script = .access place name owner := by
  cases script with
  | access place =>
      injection same with _ sameName sameOwner
      exact ⟨place, by rw [sameName, sameOwner]⟩
  | _ => cases same

def argumentWords (positional : List (List Token)) (named : List (String × List Token × Bare)) :
    List Token :=
  separated (.symbol .comma) (positional ++ named.map namedSpelling)

theorem argumentWords_nil (positional : List (List Token)) :
    argumentWords positional [] = separated (.symbol .comma) positional := by
  rw [argumentWords, List.map_nil, List.append_nil]

/-- The name of the first named piece is read like one more positional piece. -/
theorem argumentWords_cons (positional : List (List Token)) (piece : String × List Token × Bare)
    (named : List (String × List Token × Bare)) (tail : List Token) :
    argumentWords positional (piece :: named) ++ tail =
      separated (.symbol .comma) (positional ++ [[.identifier piece.1]]) ++ .symbol .assign ::
        (piece.2.1 ++ (named.flatMap (fun piece => .symbol .comma :: namedSpelling piece) ++
          tail)) := by
  cases positional <;> simp [argumentWords, separated, namedSpelling, List.flatMap_map]

section

variable {positional : List (List Token × Bare)} {named : List (String × List Token × Bare)}
  (some : positional ≠ [] ∨ named ≠ []) (operands : Operands positional)

include some operands

theorem reads_arguments (namedOperands : NamedOperands named)
    (fits : (argumentWords (positional.map Prod.fst) named ++ .symbol .rightParen :: rest).length <
      depth) :
    Reads (arguments (Level.of depth))
      (argumentWords (positional.map Prod.fst) named ++ .symbol .rightParen :: rest)
      (.symbol .rightParen :: rest) fun result =>
        Tree.bareAll result.1 = positional.map Prod.snd ∧
          Tree.bareNamed result.2 = named.map fun piece => (piece.1, piece.2.2) := by
  have ended : Begins stopsAtComma (.symbol .rightParen :: rest) := ⟨rfl, by simp⟩
  unfold arguments
  cases named with
  | nil =>
      rw [argumentWords_nil] at fits ⊢
      apply reads_separated (by simpa using some) (operands.phrases.each.registerOr _)
        operands.phrases.each.register ended fits
      intro first others all
      apply Reads.notAtSymbol (by simp [Begins])
      exact reads_pure ⟨map_bare_of_forall₂ all, rfl⟩
  | cons piece named =>
      -- The name of the first named piece is read as an operand, and is the last of the values.
      let name : List Token × Bare := ([.identifier piece.1], .access () piece.1 none)
      have values : Operands (positional ++ [name]) :=
        List.forall_mem_append.mpr
          ⟨operands, List.forall_mem_singleton.mpr (operand_name piece.1)⟩
      have spelt : positional.map Prod.fst ++ [[.identifier piece.1]] =
          (positional ++ [name]).map Prod.fst := by
        rw [List.map_append, List.map_singleton]
      rw [argumentWords_cons, spelt] at fits ⊢
      have fitsValue := fits
      rw [List.length_append, List.length_cons] at fitsValue
      have fitsNamed := fitsValue
      rw [List.length_append] at fitsNamed
      obtain ⟨valued, namedOthers⟩ := List.forall_mem_cons.mp namedOperands
      apply reads_separated (by simp) (values.phrases.each.registerOr _)
        values.phrases.each.register (by exact ⟨rfl, by simp⟩) fits
      intro first others all
      obtain ⟨before, last, sameValues, sameBefore, sameLast⟩ := forall₂_concat all
      obtain ⟨place, rfl⟩ := eq_access_of_bare sameLast
      apply Reads.atSymbol
      rw [sameValues, List.getLast?_concat]
      apply Reads.advance
      apply ((valued.reads_expr (begins_commas ended) (by omega)).registerOr _).bind
      intro value sameValue
      apply (NamedOperands.reads namedOthers ended (by omega)).bind
      intro more allNamed
      apply reads_pure
      refine ⟨?_, ?_⟩
      · rw [List.dropLast_concat, map_bare_of_forall₂ sameBefore]
      · rw [Tree.bareNamed, sameValue, bareNamed_of_forall₂ allNamed, List.map_cons]

theorem begins_argumentWords (tail : List Token) :
    Begins (· ≠ .symbol .rightParen) (argumentWords (positional.map Prod.fst) named ++ tail) := by
  cases positional with
  | nil =>
      cases named with
      | nil => simp at some
      | cons piece named => simp [argumentWords, separated, namedSpelling, Begins]
  | cons first positional =>
      have opening := (operands first List.mem_cons_self).opening
      rw [argumentWords, List.map_cons, List.cons_append, separated, List.append_assoc]
      exact (opening.append _).imp fun _ tight => not_of_opening tight rfl

end

theorem Operand.call {positional : List (List Token × Bare)} (callee : Operand words tree)
    (operands : Operands positional) (namedOperands : NamedOperands named) :
    Spells anyToken 8
      (words ++ .symbol .leftParen :: (argumentWords (positional.map Prod.fst) named ++
        [.symbol .rightParen]))
      (.call () tree (positional.map Prod.snd) (named.map fun piece => (piece.1, piece.2.2))) := by
  refine ⟨(callee.opening.append _).imp fun _ tight => by omega, ?_⟩
  intro rest _ _ depth enough
  have spelt : words ++ .symbol .leftParen :: (argumentWords (positional.map Prod.fst) named ++
      [.symbol .rightParen]) ++ rest =
      words ++ .symbol .leftParen :: (argumentWords (positional.map Prod.fst) named ++
        .symbol .rightParen :: rest) := by
    simp
  rw [spelt] at enough ⊢
  have paren : Begins (fun token => token.pull ≤ 9) (.symbol .leftParen ::
      (argumentWords (positional.map Prod.fst) named ++ .symbol .rightParen :: rest)) :=
    Nat.le_refl 9
  change Reads (Grammar.call (Level.of depth)) _ rest _
  unfold Grammar.call
  apply (callee.parses _ (Begins.anyToken paren) paren depth enough).register.bind
  intro script same
  apply Reads.atSymbol
  apply Reads.advance
  by_cases none : positional = [] ∧ named = []
  · obtain ⟨rfl, rfl⟩ := none
    apply Reads.atSymbol
    apply Reads.advance
    apply Reads.pure_bind
    apply reads_pure
    rw [Tree.bare, same]
    rfl
  · have some : positional ≠ [] ∨ named ≠ [] := by
      rw [not_and_or] at none
      exact none
    have fits : (argumentWords (positional.map Prod.fst) named ++
        .symbol .rightParen :: rest).length < depth := by
      rw [List.length_append, List.length_cons] at enough
      omega
    apply Reads.notAtSymbol (begins_argumentWords some operands _)
    apply (reads_arguments some operands namedOperands fits).bind
    intro result found
    apply (reads_expectSymbol .rightParen _).bind
    intro _ _
    apply Reads.pure_bind
    apply reads_pure
    rw [Tree.bare, same, found.1, found.2]

theorem map_fst_of_forall₂ {names : List String} {results : List (String × Placed)}
    (all : List.Forall₂ (fun name result => result.1 = name) names results) :
    results.map Prod.fst = names := by
  induction all with
  | nil => rfl
  | cons same _ ih => rw [List.map_cons, same, ih]

def nameWords (names : List String) : List (List Token) :=
  names.map fun name => [.identifier name]

theorem reads_parameters {names : List String} (some : names ≠ [] ∨ named ≠ [])
    (namedOperands : NamedOperands named)
    (fits : (argumentWords (nameWords names) named ++ .symbol .rightParen :: rest).length ≤ depth) :
    Reads (parameters (Level.of depth))
      (argumentWords (nameWords names) named ++ .symbol .rightParen :: rest)
      (.symbol .rightParen :: rest)
      fun result => result.1.map Prod.fst = names ∧
        Tree.bareNamed result.2 = named.map fun piece => (piece.1, piece.2.2) := by
  have ended : Begins stopsAtComma (.symbol .rightParen :: rest) := ⟨rfl, by simp⟩
  have each : ∀ expected (names : List String), ReadsEach (expectName expected)
      (fun name => [.identifier name]) (fun name result => result.1 = name) (depth + 1) names :=
    fun expected _ name _ _ _ _ => reads_expectName name expected
  unfold parameters
  cases named with
  | nil =>
      rw [argumentWords_nil] at fits ⊢
      apply reads_separated (by simpa using some) (each _ names) (each _ names) ended
        (Nat.lt_succ_of_le fits)
      intro first others all
      apply Reads.notAtSymbol (by simp [Begins])
      exact reads_pure ⟨map_fst_of_forall₂ all, rfl⟩
  | cons piece named =>
      -- The name of the first named piece is the last of the names.
      have spelt : nameWords names ++ [[.identifier piece.1]] = nameWords (names ++ [piece.1]) := by
        rw [nameWords, nameWords, List.map_append, List.map_singleton]
      rw [argumentWords_cons, spelt] at fits ⊢
      have fitsValue := fits
      rw [List.length_append, List.length_cons] at fitsValue
      have fitsNamed := fitsValue
      rw [List.length_append] at fitsNamed
      obtain ⟨valued, namedOthers⟩ := List.forall_mem_cons.mp namedOperands
      apply reads_separated (by simp) (each _ _) (each _ _) (by exact ⟨rfl, by simp⟩)
        (Nat.lt_succ_of_le fits)
      intro first others all
      obtain ⟨before, last, sameNames, sameBefore, sameLast⟩ := forall₂_concat all
      apply Reads.atSymbol
      apply Reads.advance
      apply (valued.reads_atom (begins_commas ended) (by omega)).register.bind
      intro value sameValue
      apply (NamedOperands.reads namedOthers ended (by omega)).bind
      intro more allNamed
      apply reads_pure
      rw [sameNames, List.getLast?_concat, List.dropLast_concat]
      refine ⟨map_fst_of_forall₂ sameBefore, ?_⟩
      rw [Tree.bareNamed, Option.getD_some, sameLast, sameValue, bareNamed_of_forall₂ allNamed,
        List.map_cons]

theorem reads_parameterList {names : List String} (namedOperands : NamedOperands named)
    (fits : (argumentWords (nameWords names) named ++ .symbol .rightParen :: rest).length ≤ depth) :
    Reads (parameterList (Level.of depth))
      (argumentWords (nameWords names) named ++ .symbol .rightParen :: rest) rest
      fun result => result.1.map Prod.fst = names ∧
        Tree.bareNamed result.2 = named.map fun piece => (piece.1, piece.2.2) := by
  unfold parameterList
  by_cases none : names = [] ∧ named = []
  · obtain ⟨rfl, rfl⟩ := none
    apply Reads.current
    intro placed here
    rw [here]
    apply (reads_expectSymbol .rightParen _).bind
    intro _ _
    exact reads_pure ⟨rfl, rfl⟩
  · have some : names ≠ [] ∨ named ≠ [] := by
      rw [not_and_or] at none
      exact none
    have reads := reads_parameters some namedOperands fits
    obtain ⟨name, others, begun⟩ : ∃ name others, argumentWords (nameWords names) named ++
        .symbol .rightParen :: rest = .identifier name :: others := by
      cases names with
      | cons name names => exact ⟨name, _, rfl⟩
      | nil =>
          cases named with
          | cons piece named => exact ⟨piece.1, _, rfl⟩
          | nil => simp at some
    rw [begun] at reads ⊢
    apply Reads.current
    intro placed here
    rw [here]
    apply reads.bind
    intro result found
    apply (reads_expectSymbol .rightParen _).bind
    intro _ _
    exact reads_pure found

end Lingo.Grammar
