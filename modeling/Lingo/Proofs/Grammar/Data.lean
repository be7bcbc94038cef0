/-
Data: integers, texts, lists and dictionaries inside one another.

Data is written as it is printed: elements and entries behind commas, texts in double quotes, and
a minus in front of the digits of a negative number.  The text is read back as the tree that makes
the data, for which the minus is an operator.
-/

import Lingo.Proofs.Grammar.Printing
import Lingo.Proofs.Token.Punctuation
import Lingo.Value.Display

namespace Lingo

attribute [local instance (high)] instPowNat

open Grammar

/-- Integers and texts, in lists and dictionaries that are nested in any way. -/
inductive Data where
  | int (value : Int)
  | text (value : String)
  | list (items : List Data)
  | dict (entries : List (String × Data))

namespace Data

/-- What is made of each kind of data, once its parts are done. -/
structure Build (α : Type) where
  int : Int → α
  text : String → α
  list : List α → α
  dict : List (String × α) → α

mutual

def fold {α : Type} (build : Build α) : Data → α
  | .int value => build.int value
  | .text value => build.text value
  | .list items => build.list (foldItems build items)
  | .dict entries => build.dict (foldEntries build entries)

def foldItems {α : Type} (build : Build α) : List Data → List α
  | [] => []
  | item :: rest => item.fold build :: foldItems build rest

def foldEntries {α : Type} (build : Build α) : List (String × Data) → List (String × α)
  | [] => []
  | (key, value) :: rest => (key, value.fold build) :: foldEntries build rest

end

attribute [simp] fold foldItems foldEntries

theorem foldItems_eq_map {α : Type} (build : Build α) (items : List Data) :
    foldItems build items = items.map (fold build) := by
  induction items with
  | nil => rfl
  | cons item rest ih => rw [foldItems, ih, List.map_cons]

theorem foldEntries_eq_map {α : Type} (build : Build α) (entries : List (String × Data)) :
    foldEntries build entries = entries.map fun entry => (entry.1, entry.2.fold build) := by
  induction entries with
  | nil => rfl
  | cons entry rest ih => rw [foldEntries, ih, List.map_cons]

def quoted (text : String) : String :=
  "\"" ++ text ++ "\""

def entryText (entry : String × String) : String :=
  quoted entry.1 ++ ": " ++ entry.2

def printed : Data → String :=
  fold
    { int := fun value => toString value
      text := quoted
      list := Display.bracketed "[" "]"
      dict := fun entries => Display.bracketed "\x7b" "\x7d" (entries.map entryText) }

/-- The words of an integer: the minus is a word of its own. -/
def intWords : Int → List Token
  | .ofNat n => [.int n]
  | .negSucc n => [.symbol .minus, .int (n + 1)]

def entryWords (entry : String × List Token) : List Token :=
  .string entry.1 :: .symbol .colon :: entry.2

def words : Data → List Token :=
  fold
    { int := intWords
      text := fun value => [.string value]
      list := fun items =>
        .symbol .leftSquare :: (separated (.symbol .comma) items ++ [.symbol .rightSquare])
      dict := fun entries =>
        .symbol .leftCurly ::
          (separated (.symbol .comma) (entries.map entryWords) ++ [.symbol .rightCurly]) }

def intTree : Int → Bare
  | .ofNat n => .number () (.int n)
  | .negSucc n => .unary () .minus (.number () (.int (n + 1)))

def tree : Data → Bare :=
  fold
    { int := intTree
      text := fun value => .string () value
      list := fun items => .list () items
      dict := fun entries => .dict () (entries.map fun entry => (((), entry.1), entry.2)) }

def height : Data → Nat :=
  fold
    { int := fun _ => 1
      text := fun _ => 1
      list := fun items => items.foldr max 0 + 1
      dict := fun entries => (entries.map Prod.snd).foldr max 0 + 1 }

def isText : Data → Bool
  | .text _ => true
  | _ => false

/-- A text that needs no escapes between its quotes. -/
def IsPlain (text : String) : Prop :=
  ∀ char ∈ text.toList, char ≠ '"' ∧ char ≠ '\\'

/-- Data whose text says all of it.  Integers are not too long, and texts need no escapes.  Texts
stand in dictionaries only, since lists show them without quotes.  Keys are distinct. -/
inductive Readable : Data → Prop where
  | int {value : Int} (short : value.natAbs < 10 ^ Numeral.digitLimit) : Readable (.int value)
  | text {value : String} (plain : IsPlain value) : Readable (.text value)
  | list {items : List Data} (each : ∀ item ∈ items, Readable item)
      (noText : ∀ item ∈ items, item.isText = false) : Readable (.list items)
  | dict {entries : List (String × Data)} (keys : ∀ entry ∈ entries, IsPlain entry.1)
      (distinct : (entries.map Prod.fst).Nodup) (each : ∀ entry ∈ entries, Readable entry.2) :
      Readable (.dict entries)

/-! ### One level at a time -/

section

variable (items : List Data) (entries : List (String × Data))

theorem printed_list : (list items).printed = Display.bracketed "[" "]" (items.map printed) :=
  congrArg (Display.bracketed "[" "]") (foldItems_eq_map _ items)

theorem printed_dict :
    (dict entries).printed = Display.bracketed "\x7b" "\x7d"
      (entries.map fun entry => entryText (entry.1, entry.2.printed)) := by
  change Display.bracketed _ _ ((foldEntries _ entries).map entryText) = _
  rw [foldEntries_eq_map, List.map_map]
  rfl

theorem words_list :
    (list items).words = .symbol .leftSquare ::
      (separated (.symbol .comma) (items.map words) ++ [.symbol .rightSquare]) := by
  change _ :: (separated _ (foldItems _ items) ++ _) = _
  rw [foldItems_eq_map]
  rfl

theorem words_dict :
    (dict entries).words = .symbol .leftCurly ::
      (separated (.symbol .comma) (entries.map fun entry => entryWords (entry.1, entry.2.words)) ++
        [.symbol .rightCurly]) := by
  change _ :: (separated _ ((foldEntries _ entries).map entryWords) ++ _) = _
  rw [foldEntries_eq_map, List.map_map]
  rfl

theorem tree_list : (list items).tree = .list () (items.map tree) :=
  congrArg (Tree.list ()) (foldItems_eq_map _ items)

theorem tree_dict :
    (dict entries).tree = .dict () (entries.map fun entry => (((), entry.1), entry.2.tree)) := by
  change Tree.dict () ((foldEntries _ entries).map _) = _
  rw [foldEntries_eq_map, List.map_map]
  rfl

theorem height_list : (list items).height = (items.map height).foldr max 0 + 1 :=
  congrArg (fun heights => heights.foldr max 0 + 1) (foldItems_eq_map _ items)

theorem height_dict :
    (dict entries).height = (entries.map fun entry => entry.2.height).foldr max 0 + 1 := by
  change ((foldEntries _ entries).map Prod.snd).foldr max 0 + 1 = _
  rw [foldEntries_eq_map, List.map_map]
  rfl

end

theorem le_foldr_max {n : Nat} : ∀ {numbers : List Nat}, n ∈ numbers → n ≤ numbers.foldr max 0
  | first :: rest, member => by
      rw [List.foldr_cons]
      rcases List.mem_cons.mp member with same | later
      · rw [same]
        exact Nat.le_max_left _ _
      · exact Nat.le_trans (le_foldr_max later) (Nat.le_max_right _ _)

theorem height_lt_list {item : Data} {items : List Data} (member : item ∈ items) :
    item.height < (list items).height := by
  rw [height_list]
  exact Nat.lt_succ_of_le (le_foldr_max (List.mem_map_of_mem member))

theorem height_lt_dict {entry : String × Data} {entries : List (String × Data)}
    (member : entry ∈ entries) : entry.2.height < (dict entries).height := by
  rw [height_dict]
  exact Nat.lt_succ_of_le
    (le_foldr_max (List.mem_map_of_mem (f := fun entry => entry.2.height) member))

theorem height_pos (data : Data) : 0 < data.height := by
  cases data with
  | int value => exact Nat.zero_lt_one
  | text value => exact Nat.zero_lt_one
  | list items => exact Nat.succ_pos _
  | dict entries => exact Nat.succ_pos _

/-! ### Reading back -/

section

variable {pieces : List (String × List Token)}
  (each : ∀ piece ∈ pieces, Lexer.Scans piece.1 piece.2)

include each

theorem scans_commas :
    Lexer.Scans (", ".intercalate (pieces.map Prod.fst))
      (separated (.symbol .comma) (pieces.map Prod.snd)) := by
  induction pieces with
  | nil => exact Lexer.scans_nothing
  | cons first pieces ih =>
      have firstScans := each first List.mem_cons_self
      cases pieces with
      | nil =>
          have alone : separated (.symbol .comma) [first.2] = first.2 := List.append_nil _
          rw [List.map_singleton, List.map_singleton, alone]
          exact firstScans
      | cons second rest =>
          have others := ih fun piece member => each piece (List.mem_cons_of_mem first member)
          have spelt : ", ".intercalate ((first :: second :: rest).map Prod.fst) =
              first.1 ++ ", " ++ ", ".intercalate ((second :: rest).map Prod.fst) :=
            String.intercalate_cons_cons
          have words : separated (.symbol .comma) ((first :: second :: rest).map Prod.snd) =
              first.2 ++ .symbol .comma ::
                separated (.symbol .comma) ((second :: rest).map Prod.snd) := by
            simp [separated]
          rw [spelt, words]
          exact firstScans.separated others rfl rfl (by decide)

end

theorem Readable.scans {data : Data} (readable : data.Readable) :
    Lexer.Scans data.printed data.words := by
  induction readable with
  | @int value short =>
      cases value with
      | ofNat n => exact Lexer.scans_int short
      | negSucc n => exact Lexer.scans_minus short
  | text plain => exact Lexer.scans_string plain
  | @list items each noText ih =>
      have pieces : ∀ piece ∈ items.map fun item => (item.printed, item.words),
          Lexer.Scans piece.1 piece.2 := List.forall_mem_map.mpr ih
      have scans := scans_commas pieces
      rw [List.map_map, List.map_map] at scans
      rw [printed_list, words_list]
      exact (scans.opened rfl rfl).closed rfl rfl (by decide)
  | @dict entries keys distinct each ih =>
      have pieces : ∀ piece ∈ entries.map fun entry =>
            (entryText (entry.1, entry.2.printed), entryWords (entry.1, entry.2.words)),
          Lexer.Scans piece.1 piece.2 :=
        List.forall_mem_map.mpr fun entry member =>
          (Lexer.scans_string (keys entry member)).separated (ih entry member) rfl rfl (by decide)
      have scans := scans_commas pieces
      rw [List.map_map, List.map_map] at scans
      rw [printed_dict, words_dict]
      exact (scans.opened rfl rfl).closed rfl rfl (by decide)

theorem operand_construct {token : Token} {words : List Token} {tree : Bare}
    {rule : Level → Rule Script} (chosen : construct? token = some rule)
    (parses : ∀ rest : List Token,
      Parses rule (token :: (words ++ rest)) rest fun result => result.bare = tree) :
    Operand (token :: words) tree :=
  ⟨opening_of_construct? chosen, fun rest _ _ => (parses rest).construct chosen⟩

theorem Readable.phrase {data : Data} (readable : data.Readable) :
    Phrase data.words data.tree := by
  induction readable with
  | @int value short =>
      cases value with
      | ofNat n => exact (operand_int n).phrase
      | negSucc n =>
          have operand := (operand_int (n + 1)).le (Nat.le_refl 9) (by decide : 6 ≤ 9)
          have negative : Spells anyToken UnaryOp.minus.rank _ _ := Spells.unary operand
          exact negative.le (by decide) (Nat.zero_le _)
  | @text value plain => exact (operand_string value).phrase
  | @list items each noText ih =>
      have phrases : Phrases (items.map fun item => (item.words, item.tree)) :=
        List.forall_mem_map.mpr ih
      rw [words_list, tree_list]
      apply Operand.phrase
      apply operand_construct rfl
      intro rest
      have parses : Parses listLiteral _ rest _ := parses_listLiteral phrases
      rw [List.map_map, List.map_map] at parses
      rw [List.append_assoc, List.singleton_append]
      exact parses
  | @dict entries keys distinct each ih =>
      have phrases : NamedPhrases
          (entries.map fun entry => (entry.1, entry.2.words, entry.2.tree)) :=
        List.forall_mem_map.mpr ih
      have names : ((entries.map fun entry =>
          (entry.1, entry.2.words, entry.2.tree)).map Prod.fst).Nodup := by
        rw [List.map_map]
        exact distinct
      rw [words_dict, tree_dict]
      apply Operand.phrase
      apply operand_construct rfl
      intro rest
      have parses : Parses dictLiteral _ rest _ := parses_dictLiteral phrases names
      rw [List.map_map, List.map_map] at parses
      rw [List.append_assoc, List.singleton_append]
      exact parses

theorem Readable.read {data : Data} (readable : data.Readable) (name : String) :
    ∃ tokens tree after, Lexer.read { name, text := data.printed } = .tokens tokens ∧
      run script tokens = .ok (.success tree, after) ∧ tree.bare = .list () [data.tree] := by
  obtain ⟨tokens, lexed, written⟩ := readable.scans.read name
  obtain ⟨tree, after, done, same⟩ := readable.phrase.run_script written
  exact ⟨tokens, tree, after, lexed, done, same⟩

end Data

end Lingo
