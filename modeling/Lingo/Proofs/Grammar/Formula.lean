/-
Formulas over integers, with only the parentheses that they need.

A formula consists of integer literals and of all operators but the one whose results are
fractions.  It is written with parentheses around an operand exactly if the operand is
joined more loosely than its place demands, and is read back as its tree.
-/

import Lingo.Proofs.Grammar.RoundTrip

namespace Lingo

attribute [local instance (high)] instPowNat

open Grammar

inductive Formula where
  | literal (value : Nat) (short : value < 10 ^ Numeral.digitLimit)
  | unary (op : UnaryOp) (operand : Formula)
  | binary (op : BinaryOp) (whole : op ≠ .div) (left right : Formula)

namespace Formula

def tree : Formula → Bare
  | literal value _ => .number () (.int value)
  | unary op operand => .unary () op operand.tree
  | binary op _ left right => .binary () op left.tree right.tree

def rank : Formula → Nat
  | literal _ _ => 9
  | unary op _ => op.rank
  | binary op _ _ _ => op.rank

/-- The rank that an operator demands of its left operand.  The base of a power is an atom. -/
def leftRank : BinaryOp → Nat
  | .pow => 9
  | op => op.rank

/-- The rank that an operator demands of its right operand.  An exponent is a factor. -/
def rightRank : BinaryOp → Nat
  | .pow => 6
  | op => op.rank + 1

/-- Words in a place that demands a rank, given the rank that they have. -/
def placed (demanded rank : Nat) (words : List Token) : List Token :=
  if demanded ≤ rank then words else .symbol .leftParen :: words ++ [.symbol .rightParen]

def words : Formula → List Token
  | literal value _ => [.int value]
  | unary op operand => op.token :: placed op.rank operand.rank operand.words
  | binary op _ left right =>
      placed (leftRank op) left.rank left.words ++
        op.token :: placed (rightRank op) right.rank right.words

/-! ### Reading back -/

theorem rank_le (formula : Formula) : formula.rank ≤ 9 := by
  cases formula with
  | literal value short => exact Nat.le_refl 9
  | unary op operand => exact op.rank_le
  | binary op whole left right => exact Nat.le_of_lt op.rank_lt

theorem leftRank_of_ne_pow {op : BinaryOp} (other : op ≠ .pow) : leftRank op = op.rank := by
  cases op with
  | pow => exact absurd rfl other
  | _ => rfl

theorem rightRank_of_ne_pow {op : BinaryOp} (other : op ≠ .pow) : rightRank op = op.rank + 1 := by
  cases op with
  | pow => exact absurd rfl other
  | _ => rfl

/-- A formula is spelt at its own rank.  If it is joined from the left, its words also begin a
longer chain of operands. -/
structure Spelt (formula : Formula) : Prop where
  spells : Spells anyToken formula.rank formula.words formula.tree
  chains : ∀ op : BinaryOp, op ≠ .pow → formula.rank = op.rank →
    Chains op.rank formula.words formula.tree

theorem Spelt.placed {formula : Formula} (spelt : formula.Spelt) {demanded : Nat}
    (bound : demanded ≤ 9) :
    Spells anyToken demanded (Formula.placed demanded formula.rank formula.words) formula.tree := by
  unfold Formula.placed
  by_cases tight : demanded ≤ formula.rank
  · rw [if_pos tight]
    exact spelt.spells.le formula.rank_le tight
  · rw [if_neg tight]
    have alone := spelt.spells.le formula.rank_le (Nat.zero_le _)
    have atom : Spells anyToken 9 _ formula.tree := alone.parenthesized trivial
    exact atom.le (Nat.le_refl 9) bound

theorem Spelt.begins {formula : Formula} (spelt : formula.Spelt) {op : BinaryOp}
    (other : op ≠ .pow) :
    Chains op.rank (Formula.placed op.rank formula.rank formula.words) formula.tree := by
  have small : op.rank + 1 ≤ 9 := op.rank_lt
  have joins := joinsLeft_of_ne_pow other
  by_cases same : formula.rank = op.rank
  · rw [Formula.placed, if_pos (Nat.le_of_eq same.symm)]
    exact spelt.chains op other same
  · -- A tighter formula, or one in parentheses, is a first operand.
    have placed := spelt.placed small
    have sameWords : Formula.placed (op.rank + 1) formula.rank formula.words =
        Formula.placed op.rank formula.rank formula.words := by
      unfold Formula.placed
      by_cases tight : op.rank ≤ formula.rank
      · rw [if_pos tight, if_pos (by omega)]
      · rw [if_neg tight, if_neg (by omega)]
    rw [sameWords] at placed
    exact Chains.one joins placed

theorem spelt (formula : Formula) : formula.Spelt := by
  induction formula with
  | literal value short =>
      refine ⟨operand_int value, ?_⟩
      intro op _ same
      cases op <;> cases same
  | unary op operand ih =>
      refine ⟨Spells.unary (ih.placed op.rank_le), ?_⟩
      intro other _ same
      cases op <;> cases other <;> cases same
  | binary op whole left right first second =>
      by_cases power : op = .pow
      · subst power
        have base := (first.placed (Nat.le_refl 9)).le (Nat.le_refl 9) (by decide : 8 ≤ 9)
        have exponent := second.placed (by decide : 6 ≤ 9)
        -- No other operator has the rank of powers, so there is no chain to begin.
        refine ⟨Spells.power base exponent, ?_⟩
        intro other different same
        cases other with
        | pow => exact absurd rfl different
        | _ => cases same
      · have small : op.rank + 1 ≤ 9 := op.rank_lt
        have chain : Chains op.rank (binary op whole left right).words
            (binary op whole left right).tree := by
          rw [words, tree, leftRank_of_ne_pow power, rightRank_of_ne_pow power]
          exact (first.begins power).more (second.placed small)
        refine ⟨chain.spells, ?_⟩
        intro other _ same
        have sameRank : op.rank = other.rank := same
        rw [← sameRank]
        exact chain

/-! ### Texts -/

theorem placed_writable {words : List Token} (all : AllWritable words) (demanded rank : Nat) :
    AllWritable (placed demanded rank words) := by
  unfold placed
  by_cases tight : demanded ≤ rank
  · rw [if_pos tight]
    exact all
  · rw [if_neg tight]
    simp [all]

theorem words_writable (formula : Formula) : AllWritable formula.words := by
  induction formula with
  | literal value short => exact allWritable_cons.mpr ⟨short, allWritable_nil⟩
  | unary op operand ih => exact allWritable_cons.mpr ⟨writable_unary op, placed_writable ih _ _⟩
  | binary op whole left right first second =>
      rw [words, allWritable_append, allWritable_cons]
      exact ⟨placed_writable first _ _, writable_binary op, placed_writable second _ _⟩

def text (formula : Formula) : String :=
  spell formula.words

theorem read_text (formula : Formula) (name : String) :
    ∃ tokens tree after, Lexer.read { name, text := formula.text } = .tokens tokens ∧
      run script tokens = .ok (.success tree, after) ∧ tree.bare = .list () [formula.tree] := by
  obtain ⟨tokens, lexed, written⟩ := Lexer.read_spell name formula.words_writable
  have alone := formula.spelt.spells.le formula.rank_le (Nat.zero_le _)
  obtain ⟨tree, after, done, same⟩ := Phrase.run_script alone written
  exact ⟨tokens, tree, after, lexed, done, same⟩

end Formula

end Lingo
