/-
How rules move among the tokens.

A rule that keeps its books moves the cursor forward by as many tokens as it counts, and never
beyond the end mark, whether it succeeds or fails.  The statement about one rule is built from
those about its parts; with it goes what holds of the result.
-/

import Lingo.Proofs.Grammar.Phrase
import Lingo.Syntax.Grammar

namespace Lingo.Rule

variable {α β : Type} {token : Token} {next : Bool → Rule α}

/-! ### Tokens by index -/

def between (tokens : Array Placed) (start stop : Nat) : List Token :=
  ((tokens.toList.map Placed.token).drop start).take (stop - start)

@[simp] theorem between_self (tokens : Array Placed) (start : Nat) :
    between tokens start start = [] := by
  simp [between]

theorem between_trans (tokens : Array Placed) {start middle stop : Nat} (first : start ≤ middle)
    (second : middle ≤ stop) :
    between tokens start stop = between tokens start middle ++ between tokens middle stop := by
  obtain ⟨near, rfl⟩ := Nat.exists_eq_add_of_le first
  obtain ⟨far, rfl⟩ := Nat.exists_eq_add_of_le second
  have whole : start + near + far - start = near + far := by omega
  have nearOnly : start + near - start = near := by omega
  have farOnly : start + near + far - (start + near) = far := by omega
  simp only [between, whole, nearOnly, farOnly, List.take_add, List.drop_drop]

theorem tokenAt_of_lt (tokens : Array Placed) {index : Nat} (inside : index < tokens.size) :
    tokenAt tokens index = tokens[index] := by
  have clamped : min index (tokens.size - 1) = index := by omega
  simp [tokenAt, clamped, inside]

theorem between_one (tokens : Array Placed) {start : Nat} (inside : start < tokens.size) :
    between tokens start (start + 1) = [(tokenAt tokens start).token] := by
  have one : start + 1 - start = 1 := by omega
  have inList : start < (tokens.toList.map Placed.token).length := by simpa using inside
  rw [tokenAt_of_lt tokens inside, between, one, List.drop_eq_getElem_cons inList]
  simp

theorem between_cons {tokens : Array Placed} {start stop : Nat}
    (passed : between tokens start (start + 1) = [token]) (onward : start + 1 ≤ stop) :
    between tokens start stop = token :: between tokens (start + 1) stop := by
  rw [between_trans tokens (Nat.le_succ start) onward, passed]
  rfl

/-- The first end mark among the tokens stands at an index. -/
structure EndsAt (tokens : Array Placed) (last : Nat) : Prop where
  inside : last < tokens.size
  mark : (tokenAt tokens last).token = .eof
  before : ∀ index < last, (tokenAt tokens index).token ≠ .eof

theorem EndsAt.lt_of_ne {tokens : Array Placed} {last index : Nat} (ends : EndsAt tokens last)
    (within : index ≤ last) (other : (tokenAt tokens index).token ≠ .eof) : index < last := by
  rcases Nat.lt_or_eq_of_le within with before | same
  · exact before
  · rw [same] at other
    exact absurd ends.mark other

/-! ### Moving forward -/

/-- The cursor went forward by as many tokens as were counted, up to an index at most. -/
structure Moves (last : Nat) (before after : Reading) : Prop where
  forward : before.cursor ≤ after.cursor
  within : after.cursor ≤ last
  counted : before.counts.passed + after.cursor = after.counts.passed + before.cursor

theorem Moves.trans {last : Nat} {first second third : Reading} (one : Moves last first second)
    (two : Moves last second third) : Moves last first third := by
  have steps := one.counted
  have further := two.counted
  refine ⟨Nat.le_trans one.forward two.forward, two.within, ?_⟩
  omega

theorem Moves.refl {last : Nat} {reading : Reading} (within : reading.cursor ≤ last) :
    Moves last reading reading :=
  ⟨Nat.le_refl _, within, rfl⟩

/-! ### Passing tokens -/

/-- From a reading on, a rule passes the tokens at certain indices, one after the other, also
those that it gives back later. -/
inductive Passes (tokens : Array Placed) : {α : Type} → Rule α → Reading → List Nat → Prop where
  | pure {α : Type} {result : α} {reading : Reading} :
      Passes tokens (pure result : Rule α) reading []
  | crash {α : Type} {cause : Crash} {reading : Reading} :
      Passes tokens (crash cause : Rule α) reading []
  | fail {α : Type} {expected : Expectation} {reading : Reading} :
      Passes tokens (fail expected : Rule α) reading []
  | current {reading : Reading} : Passes tokens current reading []
  | remaining {reading : Reading} : Passes tokens remaining reading []
  | advance {reading : Reading} : Passes tokens advance reading [reading.cursor]
  | bind {α β : Type} {first : Rule α} {next : α → Rule β} {reading after : Reading} {result : α}
      {passed more : List Nat} (starts : Passes tokens first reading passed)
      (ended : first tokens reading = .ok (.success result, after))
      (goesOn : Passes tokens (next result) after more) :
      Passes tokens (first >>= next) reading (passed ++ more)
  | stopped {α β : Type} {first : Rule α} {next : α → Rule β} {reading : Reading}
      {passed : List Nat} (starts : Passes tokens first reading passed)
      (stops : ∀ result after, first tokens reading ≠ .ok (.success result, after)) :
      Passes tokens (first >>= next) reading passed
  | register {α : Type} {part : Rule α} {reading : Reading} {passed : List Nat}
      (inside : Passes tokens part { cursor := reading.cursor, counts := {} } passed) :
      Passes tokens (register part) reading passed
  | registerOr {α : Type} {part : Rule α} {expected : Expectation} {reading : Reading}
      {passed : List Nat} (inside : Passes tokens (Rule.register part) reading passed) :
      Passes tokens (registerOr expected part) reading passed
  | attempt {α : Type} {part : Rule α} {reading : Reading} {passed : List Nat}
      (inside : Passes tokens part { cursor := reading.cursor, counts := {} } passed) :
      Passes tokens (attempt part) reading passed
  /-- A rule may depend on all tokens at once. -/
  | knowing {α : Type} {rule : Array Placed → Rule α} {reading : Reading} {passed : List Nat}
      (inside : Passes tokens (rule tokens) reading passed) :
      Passes tokens (fun tokens => rule tokens tokens) reading passed

def PassesBefore (tokens : Array Placed) (last : Nat) (rule : Rule α) (reading : Reading) : Prop :=
  ∃ passed, Passes tokens rule reading passed ∧ ∀ index ∈ passed, index < last

/-- Somewhere before an index stands a whole one-line loop over the elements of a collection. -/
def LoopsInline (tokens : Array Placed) (last : Nat) : Prop :=
  ∃ start stop, stop ≤ last ∧ Phrase.InlineEach (between tokens start stop)

/-! ### Keeping the books -/

/-- The books of a rule balance from `start` on: it moves forward by what it counts, whether it
succeeds or fails.  What it yields, and where, satisfies `post`.  It crashes only for the
loop that has no meaning, or if `shallow` holds. -/
def Balanced (tokens : Array Placed) (last : Nat) (shallow : Prop) (rule : Rule α) (start : Nat)
    (post : α → Nat → Prop) : Prop :=
  ∀ counts : Counts,
    match rule tokens { cursor := start, counts } with
    | .ok (.success result, after) =>
        Moves last { cursor := start, counts } after ∧ post result after.cursor
    | .ok (.failure _, after) => Moves last { cursor := start, counts } after
    | .error cause => cause = .inlineForEach ∨ shallow

/-- A rule keeps its books from `start` on: they balance, the rule passes only tokens before the
end mark, and if it crashes for the loop that has no meaning, it has read one. -/
structure Keeps (tokens : Array Placed) (last : Nat) (shallow : Prop) (rule : Rule α)
    (start : Nat) (post : α → Nat → Prop) : Prop where
  balanced : Balanced tokens last shallow rule start post
  passes : ∀ counts, PassesBefore tokens last rule { cursor := start, counts }
  loops : ∀ counts, rule tokens { cursor := start, counts } = .error .inlineForEach →
    LoopsInline tokens last ∨ shallow

variable {tokens : Array Placed} {last start : Nat} {shallow : Prop} {rule : Rule α}
  {post : α → Nat → Prop}

theorem Balanced.mono {wider : α → Nat → Prop} {shallower : Prop}
    (balanced : Balanced tokens last shallow rule start post)
    (entails : ∀ result stop, start ≤ stop → stop ≤ last → post result stop → wider result stop)
    (deeper : shallow → shallower) : Balanced tokens last shallower rule start wider := by
  intro counts
  have held := balanced counts
  cases outcome : rule tokens { cursor := start, counts } with
  | error cause =>
      rw [outcome] at held
      exact held.imp_right deeper
  | ok ended =>
      rw [outcome] at held
      rcases ended with ⟨_ | _, after⟩
      · exact ⟨held.1, entails _ _ held.1.forward held.1.within held.2⟩
      · exact held

section

variable {wider : α → Nat → Prop} (keeps : Keeps tokens last shallow rule start post)
  (entails : ∀ result stop, start ≤ stop → stop ≤ last → post result stop → wider result stop)

include keeps entails

theorem Keeps.mono {shallower : Prop} (deeper : shallow → shallower) :
    Keeps tokens last shallower rule start wider where
  balanced := keeps.balanced.mono entails deeper
  passes := keeps.passes
  loops counts crashed := (keeps.loops counts crashed).imp_right deeper

theorem Keeps.imp : Keeps tokens last shallow rule start wider :=
  keeps.mono entails id

end

theorem Balanced.keeps_of_still (balanced : Balanced tokens last shallow rule start post)
    (still : ∀ reading, Passes tokens rule reading [])
    (sound : ∀ reading cause, rule tokens reading ≠ .error cause) :
    Keeps tokens last shallow rule start post where
  balanced := balanced
  passes _ := ⟨[], still _, fun _ among => absurd among List.not_mem_nil⟩
  loops _ crashed := absurd crashed (sound _ _)

theorem keeps_pure {result : α} (within : start ≤ last) (holds : post result start) :
    Keeps tokens last shallow (pure result) start post :=
  Balanced.keeps_of_still (fun _ => ⟨Moves.refl within, holds⟩) (fun _ => .pure)
    fun _ _ crashed => by cases crashed

theorem keeps_fail (expected : Expectation) (within : start ≤ last) :
    Keeps tokens last shallow (fail expected : Rule α) start post :=
  Balanced.keeps_of_still (fun _ => Moves.refl within) (fun _ => .fail)
    fun _ _ crashed => by cases crashed

theorem keeps_crash (cause : Crash) (allowed : shallow) :
    Keeps tokens last shallow (crash cause : Rule α) start post where
  balanced _ := .inr allowed
  passes _ := ⟨[], .crash, fun _ among => absurd among List.not_mem_nil⟩
  loops _ _ := .inr allowed

/-- The loop that has no meaning crashes once it was read. -/
theorem keeps_inlineForEach (read : LoopsInline tokens last) :
    Keeps tokens last shallow (crash .inlineForEach : Rule α) start post where
  balanced _ := .inl rfl
  passes _ := ⟨[], .crash, fun _ among => absurd among List.not_mem_nil⟩
  loops _ _ := .inl read

/-! #### Sequences -/

theorem Balanced.bind {next : α → Rule β} {middle : α → Nat → Prop} {post : β → Nat → Prop}
    (first : Balanced tokens last shallow rule start middle)
    (second : ∀ result stop, start ≤ stop → stop ≤ last → middle result stop →
      Balanced tokens last shallow (next result) stop post) :
    Balanced tokens last shallow (rule >>= next) start post := by
  intro counts
  have held := first counts
  change match Rule.bind rule next tokens { cursor := start, counts } with
    | .ok (.success result, after) => _ ∧ post result after.cursor
    | .ok (.failure _, after) => _
    | .error cause => _
  unfold Rule.bind
  cases outcome : rule tokens { cursor := start, counts } with
  | error cause =>
      rw [outcome] at held
      exact held
  | ok ended =>
      rw [outcome] at held
      rcases ended with ⟨result | fault, after⟩
      · obtain ⟨moved, reached⟩ := held
        have further := second result after.cursor moved.forward moved.within reached after.counts
        dsimp only
        cases rest : next result tokens after with
        | error cause =>
            rw [rest] at further
            exact further
        | ok ended =>
            rw [rest] at further
            rcases ended with ⟨_ | _, stopped⟩
            · exact ⟨moved.trans further.1, further.2⟩
            · exact moved.trans further
      · exact held

theorem Balanced.reached {counts : Counts} {result : α} {after : Reading}
    (balanced : Balanced tokens last shallow rule start post)
    (ended : rule tokens { cursor := start, counts } = .ok (.success result, after)) :
    start ≤ after.cursor ∧ after.cursor ≤ last ∧ post result after.cursor := by
  have held := balanced counts
  rw [ended] at held
  exact ⟨held.1.forward, held.1.within, held.2⟩

theorem Keeps.bind {next : α → Rule β} {middle : α → Nat → Prop} {post : β → Nat → Prop}
    (first : Keeps tokens last shallow rule start middle)
    (second : ∀ result stop, start ≤ stop → stop ≤ last → middle result stop →
      Keeps tokens last shallow (next result) stop post) :
    Keeps tokens last shallow (rule >>= next) start post where
  balanced := first.balanced.bind fun result stop onward within reached =>
    (second result stop onward within reached).balanced
  passes counts := by
    obtain ⟨passed, starts, before⟩ := first.passes counts
    by_cases ends : ∃ result after,
        rule tokens { cursor := start, counts } = .ok (.success result, after)
    · obtain ⟨result, after, ended⟩ := ends
      obtain ⟨onward, within, reached⟩ := first.balanced.reached ended
      obtain ⟨more, goesOn, beforeToo⟩ :=
        (second result after.cursor onward within reached).passes after.counts
      refine ⟨passed ++ more, .bind starts ended goesOn, fun index among => ?_⟩
      exact (List.mem_append.mp among).elim (before index) (beforeToo index)
    · exact ⟨passed, .stopped starts fun result after ended => ends ⟨result, after, ended⟩, before⟩
  loops counts crashed := by
    change Rule.bind rule next tokens { cursor := start, counts } = _ at crashed
    unfold Rule.bind at crashed
    split at crashed
    · rename_i result after ended
      obtain ⟨onward, within, reached⟩ := first.balanced.reached ended
      exact (second result after.cursor onward within reached).loops after.counts crashed
    · cases crashed
    · rename_i cause ended
      cases crashed
      exact first.loops counts ended

theorem Keeps.behind_look {look : Rule β} {next : β → Rule α} {seen : β}
    (looks : ∀ counts, look tokens { cursor := start, counts } =
      .ok (.success seen, { cursor := start, counts }))
    (still : ∀ reading, Passes tokens look reading [])
    (keeps : Keeps tokens last shallow (next seen) start post) :
    Keeps tokens last shallow (look >>= next) start post := by
  have same : ∀ counts, (look >>= next) tokens { cursor := start, counts } =
      next seen tokens { cursor := start, counts } := by
    intro counts
    change Rule.bind look next tokens { cursor := start, counts } = _
    unfold Rule.bind
    rw [looks]
  constructor
  · intro counts
    rw [same]
    exact keeps.balanced counts
  · intro counts
    obtain ⟨passed, goesOn, before⟩ := keeps.passes counts
    exact ⟨[] ++ passed, .bind (still _) (looks counts) goesOn, before⟩
  · intro counts crashed
    rw [same] at crashed
    exact keeps.loops counts crashed

theorem Keeps.pure_bind {result : β} {next : β → Rule α}
    (keeps : Keeps tokens last shallow (next result) start post) :
    Keeps tokens last shallow (pure result >>= next) start post :=
  keeps.behind_look (fun _ => rfl) fun _ => .pure

theorem Keeps.current {next : Placed → Rule α}
    (keeps : Keeps tokens last shallow (next (tokenAt tokens start)) start post) :
    Keeps tokens last shallow (current >>= next) start post :=
  keeps.behind_look (fun _ => rfl) fun _ => .current

theorem Keeps.remaining {next : Nat → Rule α}
    (keeps : Keeps tokens last shallow (next (tokens.size - start + 1)) start post) :
    Keeps tokens last shallow (remaining >>= next) start post :=
  keeps.behind_look (fun _ => rfl) fun _ => .remaining

theorem Keeps.knowing {rule : Array Placed → Rule α}
    (keeps : Keeps tokens last shallow (rule tokens) start post) :
    Keeps tokens last shallow (fun tokens => rule tokens tokens) start post where
  balanced := keeps.balanced
  passes counts := by
    obtain ⟨passed, inside, before⟩ := keeps.passes counts
    exact ⟨passed, .knowing inside, before⟩
  loops := keeps.loops

theorem Keeps.test {view : Placed → Bool}
    (here : view (tokenAt tokens start) = true → Keeps tokens last shallow (next true) start post)
    (away : view (tokenAt tokens start) = false → Keeps tokens last shallow (next false) start post) :
    Keeps tokens last shallow ((Rule.current >>= fun placed => pure (view placed)) >>= next) start
      post := by
  have chosen : Keeps tokens last shallow (next (view (tokenAt tokens start))) start post := by
    cases seen : view (tokenAt tokens start) with
    | true => exact here seen
    | false => exact away seen
  exact chosen.behind_look (fun _ => rfl) fun _ => .bind .current rfl .pure

theorem keeps_fail_bind {next : β → Rule α} (expected : Expectation) (within : start ≤ last) :
    Keeps tokens last shallow (fail expected >>= next) start post := by
  have fails : Keeps tokens last shallow (fail expected : Rule β) start fun _ _ => False :=
    keeps_fail expected within
  exact fails.bind fun _ _ _ _ never => never.elim

theorem keeps_advance (ends : EndsAt tokens last) (within : start ≤ last)
    (other : (tokenAt tokens start).token ≠ .eof) :
    Keeps tokens last shallow advance start fun _ stop => stop = start + 1 where
  balanced := by
    intro counts
    have before := ends.lt_of_ne within other
    refine ⟨⟨Nat.le_succ start, before, ?_⟩, rfl⟩
    change counts.passed + (start + 1) = counts.passed + 1 + start
    omega
  passes _ := by
    refine ⟨[start], .advance, fun index among => ?_⟩
    rw [List.mem_singleton.mp among]
    exact ends.lt_of_ne within other
  loops _ crashed := by cases crashed

/-! ### Parts -/

theorem Keeps.register (keeps : Keeps tokens last shallow rule start post) :
    Keeps tokens last shallow (register rule) start post where
  balanced := by
    intro counts
    have held := keeps.balanced {}
    unfold Rule.register
    cases outcome : rule tokens { cursor := start, counts := {} } with
    | error cause =>
        rw [outcome] at held
        exact held
    | ok ended =>
        rw [outcome] at held
        -- A part counts from zero, and its count is added to that of the whole.
        have carried : ∀ after : Reading, Moves last { cursor := start, counts := {} } after →
            Moves last { cursor := start, counts }
              { cursor := after.cursor, counts := counts.absorb after.counts } := by
          intro after moved
          have counted := moved.counted
          refine ⟨moved.forward, moved.within, ?_⟩
          simp only [Counts.absorb] at counted ⊢
          omega
        rcases ended with ⟨result | fault, after⟩
        · exact ⟨carried after held.1, held.2⟩
        · exact carried after held
  passes _ := by
    obtain ⟨passed, inside, before⟩ := keeps.passes {}
    exact ⟨passed, .register inside, before⟩
  loops counts crashed := by
    unfold Rule.register at crashed
    split at crashed
    · cases crashed
    · rename_i cause ended
      cases crashed
      exact keeps.loops {} ended

theorem Keeps.registerOr (expected : Expectation)
    (keeps : Keeps tokens last shallow rule start post) :
    Keeps tokens last shallow (registerOr expected rule) start post where
  balanced := by
    intro counts
    have held := keeps.register.balanced counts
    unfold Rule.registerOr
    cases outcome : Rule.register rule tokens { cursor := start, counts } with
    | error cause =>
        rw [outcome] at held
        exact held
    | ok ended =>
        rw [outcome] at held
        rcases ended with ⟨result | fault, after⟩
        · exact held
        · by_cases unmoved : after.counts.passed = 0
          · simp only [if_pos unmoved]
            exact held
          · simp only [if_neg unmoved]
            exact held
  passes counts := by
    obtain ⟨passed, inside, before⟩ := keeps.register.passes counts
    exact ⟨passed, .registerOr inside, before⟩
  loops counts crashed := by
    unfold Rule.registerOr at crashed
    split at crashed
    · split at crashed
      · cases crashed
      · cases crashed
    · exact keeps.register.loops counts crashed

theorem Balanced.attempt (balanced : Balanced tokens last shallow rule start post)
    (within : start ≤ last) :
    Balanced tokens last shallow (attempt rule) start fun result stop =>
      match result with
      | some result => post result stop
      | none => stop = start := by
  intro counts
  have held := balanced {}
  unfold Rule.attempt
  cases outcome : rule tokens { cursor := start, counts := {} } with
  | error cause =>
      rw [outcome] at held
      exact held
  | ok ended =>
      rw [outcome] at held
      rcases ended with ⟨result | fault, after⟩
      · have counted := held.1.counted
        refine ⟨⟨held.1.forward, held.1.within, ?_⟩, held.2⟩
        change counts.passed + after.cursor = counts.passed + after.counts.passed + start
        simp only at counted
        omega
      · have counted := held.counted
        have back : after.cursor - after.counts.passed = start := by
          simp only at counted
          omega
        change Moves last _ { cursor := after.cursor - after.counts.passed, counts := _ } ∧
          after.cursor - after.counts.passed = start
        rw [back]
        exact ⟨⟨Nat.le_refl _, within, rfl⟩, rfl⟩

theorem Keeps.attempt (keeps : Keeps tokens last shallow rule start post) (within : start ≤ last) :
    Keeps tokens last shallow (attempt rule) start fun result stop =>
      match result with
      | some result => post result stop
      | none => stop = start where
  balanced := keeps.balanced.attempt within
  passes _ := by
    obtain ⟨passed, inside, before⟩ := keeps.passes {}
    exact ⟨passed, .attempt inside, before⟩
  loops counts crashed := by
    unfold Rule.attempt at crashed
    split at crashed
    · cases crashed
    · cases crashed
    · rename_i cause ended
      cases crashed
      exact keeps.loops {} ended

/-! ### Single tokens -/

theorem isSymbol_iff {symbol : Symbol} : token.isSymbol symbol = true ↔ token = .symbol symbol := by
  cases token <;> simp [Token.isSymbol]

theorem isKeyword_iff {word : Keyword} : token.isKeyword word = true ↔ token = .keyword word := by
  cases token <;> simp [Token.isKeyword]

theorem isNewline_iff : token.isNewline = true ↔ token = .newline := by
  cases token <;> simp [Token.isNewline]

theorem isEof_iff : token.isEof = true ↔ token = .eof := by
  cases token <;> simp [Token.isEof]

def Passed (tokens : Array Placed) (start : Nat) (token : Token) (stop : Nat) : Prop :=
  stop = start + 1 ∧ between tokens start stop = [token]

theorem keeps_pass (ends : EndsAt tokens last) (within : start ≤ last)
    (here : (tokenAt tokens start).token = token) (other : token ≠ .eof) :
    Keeps tokens last shallow advance start fun _ stop => Passed tokens start token stop := by
  have inside : start < tokens.size := Nat.lt_of_le_of_lt within ends.inside
  refine (keeps_advance ends within (here ▸ other)).imp ?_
  intro _ stop _ _ reached
  exact ⟨reached, by rw [reached, between_one tokens inside, here]⟩

/-- The words that a rule passed from an index on are related to its result and to where it ended. -/
def Worded (tokens : Array Placed) (start : Nat) (relation : List Token → α → Nat → Prop)
    (result : α) (stop : Nat) : Prop :=
  relation (between tokens start stop) result stop

section

variable {next : α → Rule β} {relation : List Token → β → Nat → Prop}

theorem keeps_result {result : β} (within : start ≤ last) (holds : relation [] result start) :
    Keeps tokens last shallow (pure result) start (Worded tokens start relation) := by
  refine keeps_pure within ?_
  rwa [Worded, between_self]

theorem Keeps.compare {rule : Rule β}
    (keeps : Keeps tokens last shallow rule start (Worded tokens start fun words result stop =>
      words = between tokens start stop → relation words result stop)) :
    Keeps tokens last shallow rule start (Worded tokens start relation) :=
  keeps.imp fun _ _ _ _ held => held rfl

theorem Keeps.resume {rule : Rule β} {begun : Nat} {words : List Token} (onward : begun ≤ start)
    (read : between tokens begun start = words)
    (keeps : Keeps tokens last shallow rule start
      (Worded tokens start fun rest => relation (words ++ rest))) :
    Keeps tokens last shallow rule start (Worded tokens begun relation) := by
  refine keeps.imp fun _ _ further _ held => ?_
  rw [Worded, between_trans tokens onward further, read]
  exact held

theorem Keeps.words {middle : List Token → α → Nat → Prop}
    (keeps : Keeps tokens last shallow rule start (Worded tokens start middle))
    (goesOn : ∀ result words stop, start ≤ stop → stop ≤ last → middle words result stop →
      Keeps tokens last shallow (next result) stop
        (Worded tokens stop fun rest => relation (words ++ rest))) :
    Keeps tokens last shallow (rule >>= next) start (Worded tokens start relation) := by
  refine keeps.bind fun result stop onward inside held => ?_
  exact (goesOn result _ stop onward inside held).resume onward rfl

theorem Keeps.passed {token : α → Token}
    (keeps : Keeps tokens last shallow rule start fun result stop =>
      Passed tokens start (token result) stop)
    (goesOn : ∀ result, start + 1 ≤ last →
      Keeps tokens last shallow (next result) (start + 1)
        (Worded tokens (start + 1) fun rest => relation (token result :: rest))) :
    Keeps tokens last shallow (rule >>= next) start (Worded tokens start relation) := by
  have spelt : Keeps tokens last shallow rule start
      (Worded tokens start fun words result stop =>
        stop = start + 1 ∧ words = [token result]) := keeps
  refine spelt.words ?_
  rintro result _ _ _ inside ⟨rfl, rfl⟩
  exact goesOn result inside

end

theorem Keeps.atToken {test : Token → Bool} {wanted : Token}
    (tells : ∀ {token}, test token = true ↔ token = wanted)
    (here : (tokenAt tokens start).token = wanted →
      Keeps tokens last shallow (next true) start post)
    (away : (tokenAt tokens start).token ≠ wanted →
      Keeps tokens last shallow (next false) start post) :
    Keeps tokens last shallow ((Rule.current >>= fun placed => pure (test placed.token)) >>= next)
      start post := by
  refine Keeps.test (fun found => here (tells.mp found)) fun found => away fun same => ?_
  rw [tells.mpr same] at found
  cases found

section

variable {next : Unit → Rule α} {instead : Rule α} {relation : List Token → α → Nat → Prop}
  (ends : EndsAt tokens last) (within : start ≤ last)

include ends within

theorem Keeps.ifSymbol {symbol : Symbol}
    (here : start + 1 ≤ last → Keeps tokens last shallow (next ()) (start + 1)
      (Worded tokens (start + 1) fun rest => relation (.symbol symbol :: rest)))
    (away : Keeps tokens last shallow instead start (Worded tokens start relation)) :
    Keeps tokens last shallow
      (Rule.atSymbol symbol >>= fun found => if found then Rule.advance >>= next else instead)
      start (Worded tokens start relation) :=
  Keeps.atToken isSymbol_iff
    (fun found => (keeps_pass ends within found (by simp)).passed fun _ => here) fun _ => away

theorem Keeps.ifKeyword {word : Keyword}
    (here : start + 1 ≤ last → Keeps tokens last shallow (next ()) (start + 1)
      (Worded tokens (start + 1) fun rest => relation (.keyword word :: rest)))
    (away : (tokenAt tokens start).token ≠ .keyword word →
      Keeps tokens last shallow instead start (Worded tokens start relation)) :
    Keeps tokens last shallow
      (Rule.atKeyword word >>= fun found => if found then Rule.advance >>= next else instead)
      start (Worded tokens start relation) :=
  Keeps.atToken isKeyword_iff
    (fun found => (keeps_pass ends within found (by simp)).passed fun _ => here) away

end

section

variable (ends : EndsAt tokens last) (within : start ≤ last)

include ends within

theorem keeps_expectSymbol (symbol : Symbol) (expected : Expectation) :
    Keeps tokens last shallow (expectSymbol symbol expected) start fun _ stop =>
      Passed tokens start (.symbol symbol) stop := by
  refine Keeps.atToken isSymbol_iff (fun here => ?_) (fun _ => ?_)
  · exact keeps_pass ends within here (by simp)
  · exact keeps_fail expected within

theorem keeps_expectKeyword (word : Keyword) :
    Keeps tokens last shallow (expectKeyword word) start fun _ stop =>
      Passed tokens start (.keyword word) stop := by
  refine Keeps.atToken isKeyword_iff (fun here => ?_) (fun _ => ?_)
  · exact keeps_pass ends within here (by simp)
  · exact keeps_fail _ within

theorem keeps_expectName (expected : Expectation) :
    Keeps tokens last shallow (expectName expected) start fun result stop =>
      Passed tokens start (.identifier result.1) stop := by
  unfold expectName
  refine Keeps.current ?_
  cases here : (tokenAt tokens start).token with
  | identifier name =>
      refine (keeps_pass ends within here (by simp)).bind ?_
      intro _ stop _ inside passed
      exact keeps_pure inside passed
  | _ => exact keeps_fail expected within

end

/-! ### Repetition -/

/-- A loop keeps its books if its step does and moves on whenever it adds something; the
invariant relates what was collected to where the cursor stands. -/
theorem keeps_collect {step : Rule (Option α)} {post : List α → Nat → Prop}
    (ends : EndsAt tokens last) (invariant : List α → Nat → Prop)
    (each : ∀ found place, start ≤ place → place ≤ last → invariant found place →
      Keeps tokens last shallow step place fun result stop =>
        match result with
        | some result => place < stop ∧ invariant (found ++ [result]) stop
        | none => post found stop) :
    ∀ (fuel : Nat) (collected : List α) (place : Nat), start ≤ place → place ≤ last →
      tokens.size ≤ fuel + place → invariant collected.reverse place →
      Keeps tokens last shallow (collect step fuel collected) place post := by
  intro fuel
  induction fuel with
  | zero =>
      intro collected place _ within enough _
      have inside := ends.inside
      omega
  | succ fuel ih =>
      intro collected place begun within enough holds
      unfold collect
      refine (each collected.reverse place begun within holds).bind ?_
      intro result stop moved inside found
      cases result with
      | none => exact keeps_pure inside found
      | some result =>
          obtain ⟨ahead, next⟩ := found
          refine ih (result :: collected) stop (by omega) inside (by omega) ?_
          simpa using next

theorem keeps_many {step : Rule (Option α)} {post : List α → Nat → Prop}
    (ends : EndsAt tokens last) (within : start ≤ last) (invariant : List α → Nat → Prop)
    (initial : invariant [] start)
    (each : ∀ found place, start ≤ place → place ≤ last → invariant found place →
      Keeps tokens last shallow step place fun result stop =>
        match result with
        | some result => place < stop ∧ invariant (found ++ [result]) stop
        | none => post found stop) :
    Keeps tokens last shallow (many step) start post := by
  have enough : tokens.size ≤ tokens.size - start + 1 + start := by omega
  exact Keeps.remaining (keeps_collect ends invariant each (tokens.size - start + 1) [] start
    (Nat.le_refl start) within enough initial)

end Lingo.Rule
