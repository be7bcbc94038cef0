/-
Rules that repeat a part.

Parts behind commas, operands joined by operators, and line ends.  Each loop keeps its
books and reads a phrase, if its part does; what the part reads is a hypothesis, and for
the rules one level down it is collected in one structure.
-/

import Lingo.Proofs.Grammar.Conduct

namespace Lingo

/-! ### Words -/

namespace Keyword

theorem ofSpelling?_spelling (word : Keyword) : ofSpelling? word.spelling = some word := by
  cases word <;> rfl

theorem spelling_injective {first second : Keyword} (same : first.spelling = second.spelling) :
    first = second := by
  have found := ofSpelling?_spelling first
  rw [same, ofSpelling?_spelling second] at found
  exact (Option.some.inj found).symm

end Keyword

theorem BinaryOp.token_ne_eof (op : BinaryOp) : op.token ≠ .eof := by
  cases op <;> simp [BinaryOp.token]

theorem UnaryOp.token_ne_eof (op : UnaryOp) : op.token ≠ .eof := by
  cases op <;> simp [UnaryOp.token]

namespace Grammar

open Rule

variable {token : Token} {op : BinaryOp}

theorem logicOperator?_some (found : logicOperator? token = some op) :
    op ∈ [.both, .either] ∧ token = op.token := by
  unfold logicOperator? at found
  split at found <;> cases found <;> exact ⟨by decide, rfl⟩

theorem comparisonOperator?_some (found : comparisonOperator? token = some op) :
    op ∈ [.eq, .ne, .lt, .gt, .le, .ge] ∧ token = op.token := by
  unfold comparisonOperator? at found
  split at found <;> cases found <;> exact ⟨by decide, rfl⟩

theorem sumOperator?_some (found : sumOperator? token = some op) :
    op ∈ [.add, .sub] ∧ token = op.token := by
  unfold sumOperator? at found
  split at found <;> cases found <;> exact ⟨by decide, rfl⟩

theorem productOperator?_some (found : productOperator? token = some op) :
    op ∈ [.mul, .div, .floorDiv, .mod] ∧ token = op.token := by
  unfold productOperator? at found
  split at found <;> cases found <;> exact ⟨by decide, rfl⟩

theorem powerOperator?_some (found : powerOperator? token = some op) :
    op ∈ [.pow] ∧ token = op.token := by
  unfold powerOperator? at found
  split at found
  · cases found
    exact ⟨by decide, rfl⟩
  · cases found

theorem signOperator?_some {op : UnaryOp} (found : signOperator? token = some op) :
    op ∈ [.plus, .minus] ∧ token = op.token := by
  unfold signOperator? at found
  split at found <;> cases found <;> exact ⟨by decide, rfl⟩

/-! ### The rules one level down -/

/-- The tokens from one index up to another, at least one, are a phrase that writes a tree. -/
def Writes (tokens : Array Placed) (phrase : List Token → Bare → Prop) (start : Nat)
    (tree : Script) (stop : Nat) : Prop :=
  start < stop ∧ phrase (between tokens start stop) tree.bare

/-- The body of what holds otherwise or, if there is nothing, of the last case. -/
def lastBody (chain : Cases) : Option (Script × Bool) :=
  chain.2.or (chain.1.getLast?.map Prod.snd)

/-- How a chain of cases ends with a body on lines of its own: behind the closing word, or behind
the body itself.  In the latter case it is the body of a case, and no word follows that would close
the body or go on with the chain. -/
inductive BlockEnd (tokens : Array Placed) (start : Nat) (chain : Cases) (body : Script)
    (stop : Nat) : Prop where
  | closed {place : Nat} (begun : start ≤ place) (moved : place < stop)
      (word : (tokenAt tokens (stop - 1)).token = .keyword .endWord)
      (read : Phrase.Body (between tokens place stop) body.bare true)
  | leftOpen {place : Nat} {lines : List Token} (begun : start ≤ place) (moved : place < stop)
      (read : between tokens place stop = .symbol .colon :: .newline :: lines)
      (inner : Phrase.Statements lines body.bare) (only : chain.2 = none)
      (behind : ∀ word ∈ [Keyword.endWord, .elifWord, .elseWord],
        (tokenAt tokens stop).token ≠ .keyword word)

def EndsBlock (tokens : Array Placed) (start : Nat) (chain : Cases) (stop : Nat) : Prop :=
  ∀ body, lastBody chain = some (body, true) → BlockEnd tokens start chain body stop

def WritesCases (tokens : Array Placed) (spelling : String) (start : Nat) (chain : Cases)
    (stop : Nat) : Prop :=
  start < stop ∧ EndsBlock tokens start chain stop ∧ ∃ word : Keyword, word.spelling = spelling ∧
    Phrase.Cases word (between tokens start stop) (Tree.bareCases chain.1)
      (Tree.bareOtherwise chain.2)

/-- The rules of a level read what they should from an index on. -/
structure Level.Below (tokens : Array Placed) (last : Nat) (shallow : Prop) (start : Nat)
    (level : Level) : Prop where
  statements : ∀ place, start ≤ place → place ≤ last →
    Keeps tokens last shallow level.statements place (Writes tokens Phrase.Statements place)
  statement : ∀ place, start ≤ place → place ≤ last →
    Keeps tokens last shallow level.statement place (Writes tokens Phrase.Statement place)
  expr : ∀ place, start ≤ place → place ≤ last →
    Keeps tokens last shallow level.expr place (Writes tokens Phrase.Expr place)
  comparison : ∀ place, start ≤ place → place ≤ last →
    Keeps tokens last shallow level.comparison place (Writes tokens Phrase.Comparison place)
  factor : ∀ place, start ≤ place → place ≤ last →
    Keeps tokens last shallow level.factor place (Writes tokens Phrase.Factor place)
  atom : ∀ place, start ≤ place → place ≤ last →
    Keeps tokens last shallow level.atom place (Writes tokens Phrase.Atom place)
  cases : ∀ spelling place, start ≤ place → place ≤ last →
    Keeps tokens last shallow (level.cases spelling) place (WritesCases tokens spelling place)

variable {tokens : Array Placed} {last start : Nat} {shallow : Prop} {level : Level}

theorem Level.Below.later {place : Nat} (below : Level.Below tokens last shallow start level)
    (onward : start ≤ place) : Level.Below tokens last shallow place level where
  statements further ahead := below.statements further (Nat.le_trans onward ahead)
  statement further ahead := below.statement further (Nat.le_trans onward ahead)
  expr further ahead := below.expr further (Nat.le_trans onward ahead)
  comparison further ahead := below.comparison further (Nat.le_trans onward ahead)
  factor further ahead := below.factor further (Nat.le_trans onward ahead)
  atom further ahead := below.atom further (Nat.le_trans onward ahead)
  cases spelling further ahead := below.cases spelling further (Nat.le_trans onward ahead)

theorem keeps_writes {rule : Rule Script} {phrase : List Token → Bare → Prop}
    (keeps : Keeps tokens last shallow rule start
      (Worded tokens start fun words tree stop => start < stop ∧ phrase words tree.bare)) :
    Keeps tokens last shallow rule start (Writes tokens phrase start) :=
  keeps

end Grammar

theorem Rule.Keeps.moved {β : Type} {tokens : Array Placed} {last start : Nat} {shallow : Prop}
    {rule : Rule Script} {next : Script → Rule β} {phrase : List Token → Bare → Prop}
    {relation : List Token → β → Nat → Prop}
    (keeps : Keeps tokens last shallow rule start (Grammar.Writes tokens phrase start))
    (goesOn : ∀ tree words stop, stop ≤ last → start < stop → phrase words tree.bare →
      Keeps tokens last shallow (next tree) stop
        (Worded tokens stop fun rest => relation (words ++ rest))) :
    Keeps tokens last shallow (rule >>= next) start (Worded tokens start relation) := by
  have worded : Keeps tokens last shallow rule start
      (Worded tokens start fun words tree stop => start < stop ∧ phrase words tree.bare) := keeps
  exact worded.words fun tree words stop _ inside held => goesOn tree words stop inside held.1 held.2

namespace Grammar

open Rule

variable {tokens : Array Placed} {last start : Nat} {shallow : Prop} {level : Level}

/-! ### Repetition -/

theorem keeps_afterCommas {α γ : Type} {part : Rule α} {item : List Token → γ → Prop}
    {view : α → γ} (ends : EndsAt tokens last) (within : start ≤ last)
    (each : ∀ place, start < place → place ≤ last →
      Keeps tokens last shallow part place
        (Worded tokens place fun words result _ => item words (view result))) :
    Keeps tokens last shallow (afterCommas part) start
      (Worded tokens start fun words results _ =>
        Phrase.AfterCommas item words (results.map view)) := by
  refine keeps_many ends within
    (fun found place => Phrase.AfterCommas item (between tokens start place) (found.map view))
    ?_ ?_
  · rw [between_self]
    exact .none
  · intro found place begun inside holds
    refine Keeps.atToken isSymbol_iff (fun here => ?_) (fun _ => keeps_pure inside holds)
    apply (keeps_pass ends inside here (by simp)).bind
    rintro _ _ _ behindInside ⟨rfl, comma⟩
    apply (each (place + 1) (by omega) behindInside).bind
    intro result stop moved stopInside read
    refine keeps_pure stopInside ⟨by omega, ?_⟩
    rw [between_trans tokens begun (by omega : place ≤ stop), between_cons comma moved,
      List.map_append]
    exact holds.more read

theorem keeps_joinFrom {operator? : Token → Option BinaryOp} {ops : List BinaryOp}
    {first right : List Token → Bare → Prop} {operand : Rule Script} (ends : EndsAt tokens last)
    (sees : ∀ {token op}, operator? token = some op → op ∈ ops ∧ token = op.token)
    (behind : ∀ place, start < place → place ≤ last →
      Keeps tokens last shallow operand place (Writes tokens right place)) :
    ∀ (fuel : Nat) (left : Script) (place : Nat), place ≤ last → tokens.size ≤ fuel + place →
      Writes tokens (Phrase.Chain ops first right) start left place →
      Keeps tokens last shallow (joinFrom operator? operand fuel left) place
        (Writes tokens (Phrase.Chain ops first right) start) := by
  intro fuel
  induction fuel with
  | zero =>
      intro left place within enough _
      have inside := ends.inside
      omega
  | succ fuel ih =>
      intro left place within enough held
      unfold joinFrom
      refine Keeps.current ?_
      cases found : operator? (tokenAt tokens place).token with
      | none => exact keeps_pure within held
      | some op =>
          obtain ⟨known, here⟩ := sees found
          obtain ⟨begun, chain⟩ := held
          apply (keeps_pass ends within here op.token_ne_eof).bind
          rintro _ _ _ afterInside ⟨rfl, word⟩
          apply (behind (place + 1) (by omega) afterInside).register.bind
          rintro right stop _ stopInside ⟨moved, read⟩
          refine ih _ stop stopInside (by omega) ⟨by omega, ?_⟩
          rw [between_trans tokens (Nat.le_of_lt begun) (by omega : place ≤ stop),
            between_cons word (Nat.le_of_lt moved)]
          exact chain.more known read

theorem keeps_joined {operator? : Token → Option BinaryOp} {ops : List BinaryOp}
    {first right : List Token → Bare → Prop} {head operand : Rule Script}
    (ends : EndsAt tokens last)
    (sees : ∀ {token op}, operator? token = some op → op ∈ ops ∧ token = op.token)
    (opening : Keeps tokens last shallow head start (Writes tokens first start))
    (behind : ∀ place, start < place → place ≤ last →
      Keeps tokens last shallow operand place (Writes tokens right place)) :
    Keeps tokens last shallow (joined operator? head operand) start
      (Writes tokens (Phrase.Chain ops first right) start) := by
  apply opening.register.bind
  rintro left place _ inside ⟨begun, read⟩
  have enough : tokens.size ≤ tokens.size - place + 1 + place := by omega
  exact Keeps.remaining (keeps_joinFrom ends sees behind (tokens.size - place + 1) left place inside
    enough ⟨begun, .one read⟩)

theorem keeps_skipNewlines (ends : EndsAt tokens last) (within : start ≤ last) :
    Keeps tokens last shallow skipNewlines start fun passed stop =>
      stop = start + passed ∧ Phrase.LineEnds (between tokens start stop) := by
  have many : Keeps tokens last shallow
      (many do if (← current).token.isNewline then do advance; return some () else return none)
      start fun found stop => stop = start + found.length ∧
        Phrase.LineEnds (between tokens start stop) := by
    refine keeps_many ends within
      (fun found place => place = start + found.length ∧
        Phrase.LineEnds (between tokens start place)) ⟨rfl, ?_⟩ ?_
    · rw [between_self]
      intro word member
      cases member
    · intro found place begun inside held
      obtain ⟨length, lines⟩ := held
      refine Keeps.current ?_
      by_cases here : (tokenAt tokens place).token.isNewline = true
      · rw [if_pos here]
        apply (keeps_pass ends inside (isNewline_iff.mp here) (by simp)).bind
        rintro _ _ _ stopInside ⟨rfl, line⟩
        refine keeps_pure stopInside ⟨Nat.lt_succ_self place, by simp [length]; omega, ?_⟩
        rw [between_trans tokens begun (Nat.le_succ place), line]
        intro word member
        rcases List.mem_append.mp member with earlier | now
        · exact lines word earlier
        · exact List.mem_singleton.mp now
      · rw [if_neg here]
        exact keeps_pure inside ⟨length, lines⟩
  refine many.bind ?_
  intro found stop _ inside held
  exact keeps_pure inside held

end Grammar

end Lingo
