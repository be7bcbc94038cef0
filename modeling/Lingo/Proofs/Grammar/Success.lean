/-
When rules succeed.

What a rule does depends on the tokens ahead of the cursor only.  A rule reads words if,
wherever these words lie ahead, it succeeds and leaves given words ahead; a rule refuses
words if it fails in front of them and passes nothing.  The statement about one rule is
built from those about its parts, without cursor and counts.
-/

import Mathlib.Data.List.Forall2
import Lingo.Proofs.Grammar.Conduct

namespace Lingo.Rule

variable {α β : Type} {next : Bool → Rule α} {word : Keyword} {token : Token} {good : Token → Prop}

def ahead (tokens : Array Placed) (start : Nat) : List Token :=
  (tokens.toList.map Placed.token).drop start

theorem length_ahead (tokens : Array Placed) (start : Nat) :
    (ahead tokens start).length = tokens.size - start := by
  simp [ahead]

section

variable {tokens : Array Placed} {start : Nat} {token : Token} {words : List Token}
  (here : ahead tokens start = token :: words)

include here

theorem ahead_succ : ahead tokens (start + 1) = words := by
  have tail := congrArg List.tail here
  rw [ahead, List.tail_drop] at tail
  exact tail

theorem tokenAt_of_ahead : (tokenAt tokens start).token = token := by
  have inside : start < tokens.size := by
    have count := length_ahead tokens start
    rw [here, List.length_cons] at count
    omega
  have first := congrArg List.head? here
  rw [ahead, List.head?_drop] at first
  rw [tokenAt_of_lt tokens inside]
  simpa [inside] using first

end

def Begins (kind : Token → Prop) : List Token → Prop
  | [] => False
  | token :: _ => kind token

theorem Begins.append {kind : Token → Prop} {words : List Token} (begins : Begins kind words)
    (others : List Token) : Begins kind (words ++ others) := by
  cases words with
  | nil => exact begins.elim
  | cons token words => exact begins

theorem Begins.imp {kind wider : Token → Prop} {words : List Token} (begins : Begins kind words)
    (entails : ∀ token, kind token → wider token) : Begins wider words := by
  cases words with
  | nil => exact begins.elim
  | cons token words => exact entails token begins

theorem Begins.exists_eq_cons {kind : Token → Prop} {words : List Token}
    (begins : Begins kind words) : ∃ token rest, words = token :: rest ∧ kind token := by
  cases words with
  | nil => exact begins.elim
  | cons token words => exact ⟨token, words, rfl, begins⟩

/-- A rule reads words: wherever they lie ahead it succeeds, with a result that satisfies `post`,
and leaves the words `left` ahead. -/
def Reads (rule : Rule α) (words left : List Token) (post : α → Prop) : Prop :=
  ∀ (tokens : Array Placed) (start : Nat) (counts : Counts), ahead tokens start = words →
    ∃ result after, rule tokens { cursor := start, counts } = .ok (.success result, after) ∧
      ahead tokens after.cursor = left ∧ post result

/-- A rule refuses words: wherever they lie ahead it fails and passes nothing. -/
def Refuses (rule : Rule α) (words : List Token) : Prop :=
  ∀ (tokens : Array Placed) (start : Nat) (counts : Counts), ahead tokens start = words →
    ∃ fault after, rule tokens { cursor := start, counts } = .ok (.failure fault, after) ∧
      after.cursor = start ∧ after.counts.passed = counts.passed

variable {rule : Rule α} {words left : List Token} {post : α → Prop}

theorem Reads.imp {wider : α → Prop} (reads : Reads rule words left post)
    (entails : ∀ result, post result → wider result) : Reads rule words left wider := by
  intro tokens start counts here
  obtain ⟨result, after, done, rest, holds⟩ := reads tokens start counts here
  exact ⟨result, after, done, rest, entails result holds⟩

theorem reads_pure {result : α} (holds : post result) : Reads (pure result) words words post := by
  intro tokens start counts here
  exact ⟨result, { cursor := start, counts }, rfl, here, holds⟩

theorem Reads.pure_bind {result : β} {next : β → Rule α}
    (reads : Reads (next result) words left post) :
    Reads (pure result >>= next) words left post :=
  reads

theorem Reads.bind {next : α → Rule β} {middle : List Token} {found : α → Prop}
    {post : β → Prop} (first : Reads rule words middle found)
    (second : ∀ result, found result → Reads (next result) middle left post) :
    Reads (rule >>= next) words left post := by
  intro tokens start counts here
  obtain ⟨result, after, done, rest, holds⟩ := first tokens start counts here
  obtain ⟨outcome, final, finished, ended, reached⟩ :=
    second result holds tokens after.cursor after.counts rest
  refine ⟨outcome, final, ?_, ended, reached⟩
  change Rule.bind rule next tokens { cursor := start, counts } = _
  rw [Rule.bind, done]
  exact finished

theorem Refuses.bind {next : α → Rule β} (refuses : Refuses rule words) :
    Refuses (rule >>= next) words := by
  intro tokens start counts here
  obtain ⟨fault, after, failed, back, same⟩ := refuses tokens start counts here
  refine ⟨fault, after, ?_, back, same⟩
  change Rule.bind rule next tokens { cursor := start, counts } = _
  rw [Rule.bind, failed]

/-! ### Parts -/

theorem Reads.register (reads : Reads rule words left post) :
    Reads (register rule) words left post := by
  intro tokens start counts here
  obtain ⟨result, after, done, rest, holds⟩ := reads tokens start {} here
  refine ⟨result, { cursor := after.cursor, counts := counts.absorb after.counts }, ?_, rest, holds⟩
  rw [Rule.register, done]
  rfl

theorem Reads.registerOr (expected : Expectation) (reads : Reads rule words left post) :
    Reads (registerOr expected rule) words left post := by
  intro tokens start counts here
  obtain ⟨result, after, done, rest, holds⟩ := reads.register tokens start counts here
  refine ⟨result, after, ?_, rest, holds⟩
  rw [Rule.registerOr, done]

theorem Reads.attempt (reads : Reads rule words left post) :
    Reads (attempt rule) words left fun result => ∃ found, result = some found ∧ post found := by
  intro tokens start counts here
  obtain ⟨result, after, done, rest, holds⟩ := reads tokens start {} here
  refine ⟨some result, { cursor := after.cursor, counts := counts.absorb after.counts }, ?_, rest,
    result, rfl, holds⟩
  rw [Rule.attempt, done]
  rfl

theorem Refuses.attempt (refuses : Refuses rule words) :
    Reads (attempt rule) words words fun result => result = none := by
  intro tokens start counts here
  obtain ⟨fault, after, failed, back, same⟩ := refuses tokens start {} here
  have returned : after.cursor - after.counts.passed = start := by
    rw [back, same]
    exact Nat.sub_zero start
  refine ⟨none, { cursor := start, counts := counts.forgo after.counts }, ?_, here, rfl⟩
  rw [Rule.attempt, failed]
  exact congrArg (fun cursor => Except.ok (Reply.success none, Reading.mk cursor _)) returned

theorem Refuses.register (refuses : Refuses rule words) : Refuses (register rule) words := by
  intro tokens start counts here
  obtain ⟨fault, after, failed, back, same⟩ := refuses tokens start {} here
  refine ⟨fault, { cursor := after.cursor, counts := counts.absorb after.counts }, ?_, back, ?_⟩
  · rw [Rule.register, failed]
    rfl
  · simp only [Counts.absorb, same, Nat.add_zero]

theorem Refuses.registerOr (expected : Expectation) (refuses : Refuses rule words) :
    Refuses (registerOr expected rule) words := by
  intro tokens start counts here
  obtain ⟨fault, after, failed, back, same⟩ := refuses.register tokens start counts here
  rw [Rule.registerOr, failed]
  by_cases unmoved : after.counts.passed = 0
  · simp only [if_pos unmoved]
    exact ⟨_, after, rfl, back, same⟩
  · simp only [if_neg unmoved]
    exact ⟨fault, after, rfl, back, same⟩

theorem refuses_fail (expected : Expectation) : Refuses (fail expected : Rule α) words := by
  intro tokens start counts here
  exact ⟨_, { cursor := start, counts }, rfl, rfl, rfl⟩

/-! ### Single tokens -/

theorem Reads.current {next : Placed → Rule α} (reads : ∀ placed : Placed, placed.token = token →
      Reads (next placed) (token :: words) left post) :
    Reads (current >>= next) (token :: words) left post := by
  intro tokens start counts here
  exact reads (tokenAt tokens start) (tokenAt_of_ahead here) tokens start counts here

/-- Where only the place of the current token matters, any words may lie ahead. -/
theorem Reads.anyCurrent {next : Placed → Rule α}
    (reads : ∀ placed : Placed, Reads (next placed) words left post) :
    Reads (Rule.current >>= next) words left post := by
  intro tokens start counts here
  exact reads (tokenAt tokens start) tokens start counts here

theorem reads_advance : Reads advance (token :: words) words fun _ => True := by
  intro tokens start counts here
  exact ⟨(), _, rfl, ahead_succ here, trivial⟩

theorem Reads.advance {next : Unit → Rule α} (reads : Reads (next ()) words left post) :
    Reads (advance >>= next) (token :: words) left post :=
  reads_advance.bind fun _ _ => reads

theorem Reads.test (test : Token → Bool) {answer : Bool} (seen : Begins (test · = answer) words)
    (reads : Reads (next answer) words left post) :
    Reads ((Rule.current >>= fun placed => pure (test placed.token)) >>= next) words left post := by
  intro tokens start counts here
  obtain ⟨token, rest, rfl, rfl⟩ := seen.exists_eq_cons
  have held := reads tokens start counts here
  rwa [← tokenAt_of_ahead here] at held

theorem Begins.notKeyword (away : Begins (· ≠ .keyword word) words) :
    Begins (·.isKeyword word = false) words :=
  away.imp fun _ other => Bool.eq_false_iff.mpr (mt isKeyword_iff.mp other)

theorem Reads.atSymbol {symbol : Symbol}
    (reads : Reads (next true) (.symbol symbol :: words) left post) :
    Reads (atSymbol symbol >>= next) (.symbol symbol :: words) left post :=
  Reads.test (·.isSymbol symbol) (isSymbol_iff.mpr rfl) reads

theorem Reads.notAtSymbol {symbol : Symbol} (away : Begins (· ≠ .symbol symbol) words)
    (reads : Reads (next false) words left post) :
    Reads (Rule.atSymbol symbol >>= next) words left post :=
  Reads.test (·.isSymbol symbol)
    (away.imp fun _ other => Bool.eq_false_iff.mpr (mt isSymbol_iff.mp other)) reads

theorem Reads.atKeyword (reads : Reads (next true) (.keyword word :: words) left post) :
    Reads (atKeyword word >>= next) (.keyword word :: words) left post :=
  Reads.test (·.isKeyword word) (isKeyword_iff.mpr rfl) reads

theorem Reads.notAtKeyword (away : Begins (· ≠ .keyword word) words)
    (reads : Reads (next false) words left post) :
    Reads (Rule.atKeyword word >>= next) words left post :=
  Reads.test (·.isKeyword word) away.notKeyword reads

theorem Refuses.current {next : Placed → Rule α}
    (refuses : ∀ placed : Placed, placed.token = token → Refuses (next placed) (token :: words)) :
    Refuses (Rule.current >>= next) (token :: words) := by
  intro tokens start counts here
  exact refuses (tokenAt tokens start) (tokenAt_of_ahead here) tokens start counts here

theorem Refuses.notAtKeyword (away : Begins (· ≠ .keyword word) words)
    (refuses : Refuses (next false) words) : Refuses (Rule.atKeyword word >>= next) words := by
  intro tokens start counts here
  obtain ⟨token, rest, rfl, missing⟩ := away.notKeyword.exists_eq_cons
  have held := refuses tokens start counts here
  rwa [← missing, ← tokenAt_of_ahead here] at held

theorem reads_expectSymbol (symbol : Symbol) (expected : Expectation) :
    Reads (expectSymbol symbol expected) (.symbol symbol :: words) words fun _ => True := by
  unfold expectSymbol
  apply Reads.atSymbol
  exact reads_advance

theorem reads_expectKeyword (word : Keyword) :
    Reads (expectKeyword word) (.keyword word :: words) words fun _ => True := by
  unfold expectKeyword
  apply Reads.atKeyword
  exact reads_advance

theorem reads_expectName (name : String) (expected : Expectation) :
    Reads (expectName expected) (.identifier name :: words) words fun result =>
      result.1 = name := by
  unfold expectName
  apply Reads.current
  intro placed here
  rw [here]
  apply Reads.advance
  exact reads_pure rfl

/-! ### Repetition -/

variable {γ : Type}

/-- A loop reads pieces one after another: the step reads each piece in front of whatever good
token follows, and has nothing to add at the end.  All fits into `bound` tokens. -/
theorem reads_collect {step : Rule (Option α)} {spelling : γ → List Token} {holds : γ → α → Prop}
    {tail : List Token} {bound : Nat} (final : Reads step tail left fun result => result = none)
    (goodTail : Begins good tail) :
    ∀ (pieces : List γ), (∀ piece ∈ pieces, Begins good (spelling piece)) →
      (∀ piece ∈ pieces, ∀ rest : List Token, Begins good rest →
        (spelling piece ++ rest).length ≤ bound →
          Reads step (spelling piece ++ rest) rest fun result =>
            ∃ found, result = some found ∧ holds piece found) →
      ∀ (fuel : Nat) (collected : List α), (pieces.flatMap spelling ++ tail).length < fuel →
        (pieces.flatMap spelling ++ tail).length ≤ bound →
          Reads (collect step fuel collected) (pieces.flatMap spelling ++ tail) left
            fun results => ∃ found, results = collected.reverse ++ found ∧
              List.Forall₂ holds pieces found := by
  intro pieces
  induction pieces with
  | nil =>
      intro _ _ fuel collected enough _
      obtain ⟨fuel, rfl⟩ := Nat.exists_eq_add_of_lt enough
      apply final.bind
      intro result nothing
      rw [nothing]
      exact reads_pure ⟨[], (List.append_nil _).symm, List.Forall₂.nil⟩
  | cons piece pieces ih =>
      intro begins each fuel collected enough fits
      -- No piece is empty, so the fuel that is left is enough for the others.
      have moved : 0 < (spelling piece).length := by
        obtain ⟨token, rest, spelt, _⟩ := (begins piece List.mem_cons_self).exists_eq_cons
        rw [spelt]
        exact Nat.succ_pos rest.length
      have later : ∀ other ∈ pieces, Begins good (spelling other) :=
        fun other member => begins other (List.mem_cons_of_mem piece member)
      have goodRest : Begins good (pieces.flatMap spelling ++ tail) := by
        cases pieces with
        | nil => exact goodTail
        | cons other pieces =>
            rw [List.flatMap_cons, List.append_assoc]
            exact (later other List.mem_cons_self).append _
      rw [List.flatMap_cons, List.append_assoc] at enough fits ⊢
      have shorter := enough
      rw [List.length_append] at shorter
      obtain ⟨fuel, rfl⟩ : ∃ less, fuel = less + 1 := ⟨fuel - 1, by omega⟩
      unfold collect
      apply (each piece List.mem_cons_self _ goodRest fits).bind
      intro result added
      obtain ⟨found, rfl, known⟩ := added
      have inside : (pieces.flatMap spelling ++ tail).length ≤ bound := by
        rw [List.length_append] at fits
        omega
      apply (ih later (fun other member => each other (List.mem_cons_of_mem piece member)) fuel
        (found :: collected) (by omega) inside).imp
      intro results gathered
      obtain ⟨others, same, all⟩ := gathered
      refine ⟨found :: others, ?_, List.Forall₂.cons known all⟩
      rw [same, List.reverse_cons, List.append_assoc, List.singleton_append]

theorem reads_many {step : Rule (Option α)} {spelling : γ → List Token} {holds : γ → α → Prop}
    {tail : List Token} {bound : Nat} {pieces : List γ}
    (begins : ∀ piece ∈ pieces, Begins good (spelling piece))
    (each : ∀ piece ∈ pieces, ∀ rest : List Token, Begins good rest →
      (spelling piece ++ rest).length ≤ bound →
        Reads step (spelling piece ++ rest) rest fun result =>
          ∃ found, result = some found ∧ holds piece found)
    (final : Reads step tail left fun result => result = none) (goodTail : Begins good tail)
    (fits : (pieces.flatMap spelling ++ tail).length ≤ bound) :
    Reads (many step) (pieces.flatMap spelling ++ tail) left (List.Forall₂ holds pieces) := by
  intro tokens start counts here
  have enough : (pieces.flatMap spelling ++ tail).length < tokens.size - start + 1 := by
    rw [← here, length_ahead]
    exact Nat.lt_succ_self _
  have reads := reads_collect final goodTail pieces begins each (tokens.size - start + 1) []
    enough fits
  obtain ⟨results, after, done, rest, found, same, all⟩ := reads tokens start counts here
  refine ⟨results, after, done, rest, ?_⟩
  rw [same]
  exact all

theorem reads_afterCommas {part : Rule α} {spelling : γ → List Token} {holds : γ → α → Prop}
    {tail : List Token} {bound : Nat} {pieces : List γ}
    (each : ∀ piece ∈ pieces, ∀ rest : List Token, Begins good rest →
      (spelling piece ++ rest).length < bound →
        Reads part (spelling piece ++ rest) rest (holds piece)) (comma : good (.symbol .comma))
    (goodTail : Begins good tail) (final : Begins (· ≠ .symbol .comma) tail)
    (fits : (pieces.flatMap (fun piece => .symbol .comma :: spelling piece) ++ tail).length ≤ bound) :
    Reads (afterCommas part)
      (pieces.flatMap (fun piece => .symbol .comma :: spelling piece) ++ tail) tail
      (List.Forall₂ holds pieces) := by
  have begins : ∀ piece ∈ pieces, Begins good (Token.symbol .comma :: spelling piece) :=
    fun _ _ => comma
  unfold afterCommas
  refine reads_many begins ?_ ?_ goodTail fits
  · intro piece member rest goodRest inside
    apply Reads.atSymbol
    apply Reads.advance
    apply (each piece member rest goodRest inside).bind
    intro found known
    exact reads_pure ⟨found, rfl, known⟩
  · apply Reads.notAtSymbol final
    exact reads_pure rfl

theorem reads_skipNewlines (count : Nat) {rest : List Token} (final : Begins (· ≠ .newline) rest) :
    Reads skipNewlines (List.replicate count .newline ++ rest) rest (· = count) := by
  let pieces := List.replicate count ()
  have spelt : List.replicate count Token.newline = pieces.flatMap fun _ => [.newline] := by
    simp [pieces, List.flatMap_replicate]
  have begins : ∀ piece ∈ pieces, Begins (fun _ => True) [Token.newline] :=
    fun _ _ => trivial
  have goodRest : Begins (fun _ => True) rest := final.imp fun _ _ => trivial
  have each : ∀ piece ∈ pieces, ∀ others : List Token, Begins (fun _ => True) others →
      ([Token.newline] ++ others).length ≤
        (pieces.flatMap (fun _ => [Token.newline]) ++ rest).length →
      Reads (do
        if (← current).token.isNewline then
          advance
          return some ()
        else return none) ([Token.newline] ++ others) others fun result =>
          ∃ found : Unit, result = some found ∧ True := by
    intro piece _ others _ _
    apply Reads.current
    intro placed here
    rw [here]
    apply Reads.advance
    exact reads_pure ⟨(), rfl, trivial⟩
  have none : Reads (do
      if (← current).token.isNewline then
        advance
        return some ()
      else return none) rest rest fun result => result = (none : Option Unit) := by
    obtain ⟨token, others, rfl, other⟩ := final.exists_eq_cons
    apply Reads.current
    intro placed here
    have missing : placed.token.isNewline = false := by
      rw [here, Bool.eq_false_iff, ne_eq, isNewline_iff]
      exact other
    rw [missing]
    exact reads_pure rfl
  rw [spelt]
  unfold skipNewlines
  apply (reads_many begins each none goodRest (Nat.le_refl _)).bind
  intro passed all
  apply reads_pure
  rw [← all.length_eq, List.length_replicate]

/-! ### Rules in a row -/

section

variable {first : Rule α} {next : α → Rule β} {tokens : Array Placed}
  {reading after : Reading}

theorem bind_of_success {result : α} (ended : first tokens reading = .ok (.success result, after)) :
    (first >>= next) tokens reading = next result tokens after := by
  change Rule.bind first next tokens reading = _
  rw [Rule.bind, ended]

theorem bind_of_failure {fault : SyntaxFault}
    (ended : first tokens reading = .ok (.failure fault, after)) :
    (first >>= next) tokens reading = .ok (.failure fault, after) := by
  change Rule.bind first next tokens reading = _
  rw [Rule.bind, ended]

theorem bind_of_error {cause : Crash} (ended : first tokens reading = .error cause) :
    (first >>= next) tokens reading = .error cause := by
  change Rule.bind first next tokens reading = _
  rw [Rule.bind, ended]

theorem bind_of_eq {other : Rule α} {otherReading : Reading}
    (same : first tokens reading = other tokens otherReading) :
    (first >>= next) tokens reading = (other >>= next) tokens otherReading := by
  change Rule.bind first next tokens reading = Rule.bind other next tokens otherReading
  rw [Rule.bind, Rule.bind, same]

/-- What comes behind a rule is one of several rules, if it is behind each result. -/
theorem exists_bind_eq {others : Nat → α → Rule β}
    (same : ∀ result after, ∃ choice, next result tokens after =
      others choice result tokens after) :
    ∃ choice, (first >>= next) tokens reading = (first >>= others choice) tokens reading := by
  cases ended : first tokens reading with
  | error cause => exact ⟨0, by rw [bind_of_error ended, bind_of_error ended]⟩
  | ok answer =>
      obtain ⟨reply, after⟩ := answer
      cases reply with
      | failure fault => exact ⟨0, by rw [bind_of_failure ended, bind_of_failure ended]⟩
      | success result =>
          obtain ⟨choice, same⟩ := same result after
          exact ⟨choice, by rw [bind_of_success ended, bind_of_success ended, same]⟩

theorem bind_bind {γ : Type} (first : Rule α) (next : α → Rule β) (final : β → Rule γ) :
    first >>= next >>= final = first >>= fun result => next result >>= final := by
  funext tokens reading
  cases ended : first tokens reading with
  | error cause => rw [bind_of_error (bind_of_error ended), bind_of_error ended]
  | ok answer =>
      obtain ⟨reply, after⟩ := answer
      cases reply with
      | failure fault => rw [bind_of_failure (bind_of_failure ended), bind_of_failure ended]
      | success result =>
          rw [bind_of_success ended]
          change Rule.bind (first >>= next) final tokens reading = Rule.bind (next result) final _ _
          rw [Rule.bind, bind_of_success ended]
          rfl

theorem of_bind_success {result : β}
    (ended : (first >>= next) tokens reading = .ok (.success result, after)) :
    ∃ found middle, first tokens reading = .ok (.success found, middle) ∧
      next found tokens middle = .ok (.success result, after) := by
  cases begun : first tokens reading with
  | error cause =>
      rw [bind_of_error begun] at ended
      cases ended
  | ok answer =>
      obtain ⟨reply, middle⟩ := answer
      cases reply with
      | failure fault =>
          rw [bind_of_failure begun] at ended
          cases ended
      | success found =>
          rw [bind_of_success begun] at ended
          exact ⟨found, middle, rfl, ended⟩

end

end Lingo.Rule
