/-
Writing trees and reading them back.

A tree is written as tokens, with parentheses around each operand that is not a number, a
string or a name, a line end between two statements, and a closing word or bracket behind
each block.  Every tree that can be written at all is read back from its text.
-/

import Lingo.Proofs.Grammar.Bodies
import Lingo.Proofs.Token.Spelling

namespace Lingo

open Grammar

namespace Tree

variable {tree : Bare}

/-! ### Words -/

/-- Whether a tree needs no parentheses as an operand. -/
def isPlain : Bare → Bool
  | number .. | string .. | access .. => true
  | _ => false

def isCommand : Bare → Bool
  | giveBack .. | skip .. | leave .. => true
  | _ => false

def enclosed (tree : Bare) (words : List Token) : List Token :=
  if tree.isPlain then words else .symbol .leftParen :: words ++ [.symbol .rightParen]

/-- The words of a tree as a statement on one line with other words. -/
def inlined (tree : Bare) (words : List Token) : List Token :=
  if tree.isCommand then words else tree.enclosed words

mutual

def words : Bare → List Token
  | number _ value => [value.token]
  | string _ text => [.string text]
  | list _ items =>
      .symbol .leftSquare :: (separated (.symbol .comma) ((operandPieces items).map Prod.fst) ++
        [.symbol .rightSquare])
  | dict _ entries =>
      .symbol .leftCurly :: (separated (.symbol .comma) ((entryPieces entries).map entrySpelling) ++
        [.symbol .rightCurly])
  | access _ name none => [.identifier name]
  | access _ name (some owner) => [.identifier owner, .symbol .dot, .identifier name]
  | assign _ name value =>
      .keyword .varWord :: .identifier name :: .symbol .assign :: value.enclosed value.words
  | binary _ op left right =>
      left.enclosed left.words ++ op.token :: right.enclosed right.words
  | unary _ op operand => op.token :: operand.enclosed operand.words
  | branch _ cases otherwise =>
      caseWords (otherwiseWords (finalPiece otherwise)) .ifWord (casePieces cases)
  | count _ name first limit step body block =>
      .keyword .forWord :: .identifier name :: .symbol .assign :: (first.enclosed first.words ++
        .keyword .toWord :: (limit.enclosed limit.words ++ (stepWords (optionPiece step) ++
          .symbol .colon :: closedBody block
            (if block then blockWords body else body.inlined body.words))))
  | each _ name collection body block =>
      .keyword .forWord :: .identifier name :: .keyword .inWord ::
        (collection.enclosed collection.words ++ .symbol .colon :: closedBody block
          (if block then blockWords body else body.inlined body.words))
  | loop _ condition body block =>
      .keyword .whileWord :: (condition.enclosed condition.words ++ .symbol .colon ::
        closedBody block (if block then blockWords body else body.inlined body.words))
  | function _ name parameters optional body yields =>
      .keyword .funcWord :: (headWords name ++ .symbol .leftParen ::
        (argumentWords (nameWords parameters) (namedPieces optional) ++ .symbol .rightParen ::
          functionTail yields (if yields then body.enclosed body.words else blockWords body)))
  | call _ callee arguments optional =>
      callee.enclosed callee.words ++ .symbol .leftParen ::
        (argumentWords ((operandPieces arguments).map Prod.fst) (namedPieces optional) ++
          [.symbol .rightParen])
  | giveBack _ none => [.keyword .returnWord]
  | giveBack _ (some value) => .keyword .returnWord :: value.enclosed value.words
  | skip _ => [.keyword .continueWord]
  | leave _ => [.keyword .breakWord]

def blockWords : Bare → List Token
  | list _ items => separated .newline ((linePieces items).map Prod.fst)
  | _ => []

def operandPieces : List Bare → List (List Token × Bare)
  | [] => []
  | tree :: rest => (tree.enclosed tree.words, tree) :: operandPieces rest

def linePieces : List Bare → List (List Token × Bare)
  | [] => []
  | tree :: rest => (tree.words, tree) :: linePieces rest

def entryPieces : List ((Unit × String) × Bare) → List (String × List Token × Bare)
  | [] => []
  | ((_, key), tree) :: rest => (key, tree.enclosed tree.words, tree) :: entryPieces rest

def namedPieces : List (String × Bare) → List (String × List Token × Bare)
  | [] => []
  | (name, tree) :: rest => (name, tree.enclosed tree.words, tree) :: namedPieces rest

def optionPiece : Option Bare → Option (List Token × Bare)
  | none => none
  | some tree => some (tree.enclosed tree.words, tree)

def casePieces : List (Bare × Bare × Bool) → List Case
  | [] => []
  | (condition, body, block) :: rest =>
      { test := (condition.enclosed condition.words, condition)
        block
        body := (if block then blockWords body else body.inlined body.words, body) } ::
          casePieces rest

def finalPiece : Option (Bare × Bool) → Option (Bool × List Token × Bare)
  | none => none
  | some (body, block) =>
      some (block, if block then blockWords body else body.inlined body.words, body)

end

attribute [simp] words blockWords operandPieces linePieces entryPieces namedPieces optionPiece
  casePieces finalPiece

/-! ### Trees that can be written -/

mutual

/-- A tree that can be written: its numbers and texts can, operands are expressions, blocks hold
at least one statement, and a dictionary holds each key once. -/
def Formed : Bare → Prop
  | number _ value => value.token.Writable
  | string _ text => (Token.string text).Writable
  | list _ items => FormedOperands items
  | dict _ entries => (entries.map fun entry => entry.1.2).Nodup ∧ FormedEntries entries
  | access _ name none => IsName name
  | access _ name (some owner) => IsName name ∧ IsName owner
  | assign _ name value => IsName name ∧ value.isCommand = false ∧ value.Formed
  | binary _ _ left right =>
      (left.isCommand = false ∧ left.Formed) ∧ right.isCommand = false ∧ right.Formed
  | unary _ _ operand => operand.isCommand = false ∧ operand.Formed
  | branch _ cases otherwise => cases ≠ [] ∧ FormedCases cases ∧ FormedFinal otherwise
  | count _ name first limit step body block =>
      IsName name ∧ (first.isCommand = false ∧ first.Formed) ∧
        (limit.isCommand = false ∧ limit.Formed) ∧ FormedOption step ∧
          if block then FormedBlock body else body.Formed
  | each _ name collection body block =>
      IsName name ∧ (collection.isCommand = false ∧ collection.Formed) ∧
        block = true ∧ FormedBlock body
  | loop _ condition body block =>
      (condition.isCommand = false ∧ condition.Formed) ∧
        if block then FormedBlock body else body.Formed
  | function _ name parameters optional body yields =>
      (∀ known ∈ name, IsName known) ∧ (∀ parameter ∈ parameters, IsName parameter) ∧
        FormedNamed optional ∧
          if yields then body.isCommand = false ∧ body.Formed else FormedBlock body
  | call _ callee arguments optional =>
      (callee.isCommand = false ∧ callee.Formed) ∧ FormedOperands arguments ∧ FormedNamed optional
  | giveBack _ value => FormedOption value
  | skip _ => True
  | leave _ => True

def FormedBlock : Bare → Prop
  | list _ items => items ≠ [] ∧ FormedLines items
  | _ => False

def FormedOperands : List Bare → Prop
  | [] => True
  | tree :: rest => (tree.isCommand = false ∧ tree.Formed) ∧ FormedOperands rest

def FormedLines : List Bare → Prop
  | [] => True
  | tree :: rest => tree.Formed ∧ FormedLines rest

def FormedEntries : List ((Unit × String) × Bare) → Prop
  | [] => True
  | ((_, key), tree) :: rest =>
      (Token.string key).Writable ∧ (tree.isCommand = false ∧ tree.Formed) ∧ FormedEntries rest

def FormedNamed : List (String × Bare) → Prop
  | [] => True
  | (name, tree) :: rest =>
      IsName name ∧ (tree.isCommand = false ∧ tree.Formed) ∧ FormedNamed rest

def FormedOption : Option Bare → Prop
  | none => True
  | some tree => tree.isCommand = false ∧ tree.Formed

def FormedCases : List (Bare × Bare × Bool) → Prop
  | [] => True
  | (condition, body, block) :: rest =>
      (condition.isCommand = false ∧ condition.Formed) ∧
        (if block then FormedBlock body else body.Formed) ∧ FormedCases rest

def FormedFinal : Option (Bare × Bool) → Prop
  | none => True
  | some (body, block) => if block then FormedBlock body else body.Formed

end

/-! ### Pieces stand for their trees -/

theorem operandPieces_snd (trees : List Bare) : (operandPieces trees).map Prod.snd = trees := by
  induction trees with
  | nil => rfl
  | cons tree rest ih => rw [operandPieces, List.map_cons, ih]

theorem linePieces_snd (trees : List Bare) : (linePieces trees).map Prod.snd = trees := by
  induction trees with
  | nil => rfl
  | cons tree rest ih => rw [linePieces, List.map_cons, ih]

theorem entryPieces_snd (entries : List ((Unit × String) × Bare)) :
    ((entryPieces entries).map fun piece => (((), piece.1), piece.2.2)) = entries := by
  induction entries with
  | nil => rfl
  | cons entry rest ih => rw [entryPieces, List.map_cons, ih]

theorem entryPieces_fst (entries : List ((Unit × String) × Bare)) :
    (entryPieces entries).map Prod.fst = entries.map fun entry => entry.1.2 := by
  induction entries with
  | nil => rfl
  | cons entry rest ih => rw [entryPieces, List.map_cons, ih, List.map_cons]

theorem namedPieces_snd (named : List (String × Bare)) :
    ((namedPieces named).map fun piece => (piece.1, piece.2.2)) = named := by
  induction named with
  | nil => rfl
  | cons item rest ih => rw [namedPieces, List.map_cons, ih]

theorem casePieces_bare (cases : List (Bare × Bare × Bool)) :
    (casePieces cases).map Case.bare = cases := by
  induction cases with
  | nil => rfl
  | cons case rest ih => rw [casePieces, List.map_cons, ih, Case.bare]

theorem optionPiece_snd (value : Option Bare) : (optionPiece value).map Prod.snd = value := by
  cases value with
  | none => rfl
  | some tree => rfl

/-! ### Reading back -/

/-- A tree is read back from its words in each place where they may stand: as an operand, as a
statement with others on its line, and as a statement on a line of its own. -/
structure Written (tree : Bare) : Prop where
  operand : tree.isCommand = false → Operand (tree.enclosed tree.words) tree
  inline : LineOf (tree.inlined tree.words) tree
  line : States (fun token => token.ends = true) tree.words tree

theorem LineOf.line {words : List Token} (line : LineOf words tree) :
    States (fun token => token.ends = true) words tree :=
  ⟨line.opening, fun rest ends => line.parses rest (ends.imp fun _ => Token.closes_of_ends)⟩

theorem Written.ofOperand (operand : Operand (tree.enclosed tree.words) tree)
    (expression : tree.isCommand = false)
    (line : States (fun token => token.ends = true) tree.words tree) : Written tree := by
  refine ⟨fun _ => operand, ?_, line⟩
  have alone : Spells (fun token => token.closes = true) 0 (tree.enclosed tree.words) tree :=
    (operand.le (Nat.le_refl 9) (Nat.zero_le 9)).mono fun _ _ => trivial
  rw [inlined, expression]
  exact alone.states fun _ => id

theorem Written.ofPlain (plain : tree.isPlain = true) (operand : Operand tree.words tree) :
    Written tree := by
  have expression : tree.isCommand = false := by
    cases tree <;> first | rfl | cases plain
  have same : tree.enclosed tree.words = tree.words := by
    rw [enclosed, plain]
    rfl
  have alone : Spells (fun token => token.ends = true) 0 tree.words tree :=
    (operand.le (Nat.le_refl 9) (Nat.zero_le 9)).mono fun _ _ => trivial
  refine Written.ofOperand ?_ expression (alone.states fun _ => Token.closes_of_ends)
  rw [same]
  exact operand

theorem Written.ofSpells (compound : tree.isPlain = false) (expression : tree.isCommand = false)
    (spells : Spells (fun token => token.ends = true) 0 tree.words tree) : Written tree := by
  refine Written.ofOperand ?_ expression (spells.states fun _ => Token.closes_of_ends)
  rw [enclosed, compound]
  exact spells.parenthesized rfl

theorem Written.ofCommand (command : tree.isCommand = true) (line : LineOf tree.words tree) :
    Written tree := by
  refine ⟨fun expression => ?_, ?_, LineOf.line line⟩
  · rw [command] at expression
    cases expression
  · rw [inlined, command]
    exact line

theorem spells_construct {good : Token → Prop} {token : Token} {words : List Token}
    {rule : Level → Rule Script} (chosen : construct? token = some rule)
    (parses : ∀ rest : List Token, Rule.Begins good rest →
      Parses rule (token :: (words ++ rest)) rest fun result => result.bare = tree) :
    Spells good 0 (token :: words) tree := by
  have atom : Spells good 9 (token :: words) tree :=
    ⟨opening_of_construct? chosen, fun rest ends _ => (parses rest ends).construct chosen⟩
  exact atom.le (Nat.le_refl 9) (Nat.zero_le 9)

theorem closing_of_ends {rest : List Token}
    (ends : Rule.Begins (fun token => token.ends = true) rest) :
    Rule.Begins (fun token => token.closes = true) rest :=
  ends.imp fun _ => Token.closes_of_ends

theorem bodyOf {block : Bool} (inline : tree.Formed → Written tree)
    (lines : FormedBlock tree → BlockOf (blockWords tree) tree)
    (formed : if block then FormedBlock tree else tree.Formed) :
    BodyOf block (if block then blockWords tree else tree.inlined tree.words) tree := by
  cases block with
  | true => exact lines formed
  | false => exact (inline formed).inline

theorem written_list {items : List Bare} (operands : Operands (operandPieces items)) :
    Written (.list () items) := by
  apply Written.ofSpells rfl rfl
  rw [words]
  apply spells_construct rfl
  intro rest _
  have parses : Parses listLiteral _ rest _ := parses_listLiteral operands.phrases
  rw [operandPieces_snd] at parses
  rw [List.append_assoc, List.singleton_append]
  exact parses

theorem written_dict {entries : List ((Unit × String) × Bare)}
    (operands : NamedOperands (entryPieces entries))
    (distinct : (entries.map fun entry => entry.1.2).Nodup) : Written (.dict () entries) := by
  apply Written.ofSpells rfl rfl
  rw [words]
  apply spells_construct rfl
  intro rest _
  rw [← entryPieces_fst] at distinct
  have parses : Parses dictLiteral _ rest _ := parses_dictLiteral operands.phrases distinct
  rw [entryPieces_snd] at parses
  rw [List.append_assoc, List.singleton_append]
  exact parses

theorem written_assign {name : String} {value : Bare}
    (operand : Operand (value.enclosed value.words) value) : Written (.assign () name value) := by
  apply Written.ofSpells rfl rfl
  rw [words]
  exact (operand.assign name).mono fun _ _ => trivial

theorem written_binary {op : BinaryOp} {left right : Bare}
    (first : Operand (left.enclosed left.words) left)
    (second : Operand (right.enclosed right.words) right) : Written (.binary () op left right) := by
  have small : op.rank ≤ 9 := Nat.le_of_lt op.rank_lt
  apply Written.ofSpells rfl rfl
  rw [words]
  exact ((Spells.binary op first second).le small (Nat.zero_le _)).mono fun _ _ => trivial

theorem written_unary {op : UnaryOp} {inner : Bare}
    (operand : Operand (inner.enclosed inner.words) inner) : Written (.unary () op inner) := by
  apply Written.ofSpells rfl rfl
  rw [words]
  have spells := Spells.unary (operand.le (Nat.le_refl 9) op.rank_le)
  exact (spells.le op.rank_le (Nat.zero_le _)).mono fun _ _ => trivial

theorem written_call {callee : Bare} {arguments : List Bare} {optional : List (String × Bare)}
    (first : Operand (callee.enclosed callee.words) callee)
    (operands : Operands (operandPieces arguments)) (named : NamedOperands (namedPieces optional)) :
    Written (.call () callee arguments optional) := by
  apply Written.ofSpells rfl rfl
  rw [words]
  have spells := first.call operands named
  rw [operandPieces_snd, namedPieces_snd] at spells
  exact (spells.le (by decide) (Nat.zero_le _)).mono fun _ _ => trivial

theorem written_branch {cases : List (Bare × Bare × Bool)} {otherwise : Option (Bare × Bool)}
    (some : cases ≠ []) (written : ∀ case ∈ casePieces cases, case.Written)
    (final : ∀ part ∈ finalPiece otherwise, BodyOf part.1 part.2.1 part.2.2) :
    Written (.branch () cases otherwise) := by
  have pieces : casePieces cases ≠ [] := by
    intro none
    rw [← casePieces_bare cases, none] at some
    exact some rfl
  have parses : ∀ rest : List Token, Rule.Begins (fun token => token.ends = true) rest →
      Parses Grammar.branch _ rest _ := fun rest => parses_branch pieces written final
  apply Written.ofSpells rfl rfl
  rw [words]
  cases split : casePieces cases with
  | nil => exact absurd split pieces
  | cons first others =>
      have bare : ((finalPiece otherwise).map fun part => (part.2.2, part.1)) = otherwise := by
        cases otherwise <;> rfl
      rw [casePieces_bare, bare, split] at parses
      exact spells_construct rfl parses

theorem written_count {name : String} {first limit body : Bare} {step : Option Bare} {block : Bool}
    (firstOperand : Operand (first.enclosed first.words) first)
    (limitOperand : Operand (limit.enclosed limit.words) limit)
    (stepOperand : ∀ part ∈ optionPiece step, Operand part.1 part.2)
    (known : BodyOf block (if block then blockWords body else body.inlined body.words) body) :
    Written (.count () name first limit step body block) := by
  apply Written.ofSpells rfl rfl
  rw [words]
  apply spells_construct rfl
  intro rest ends
  have parses : Parses forLoop _ rest _ :=
    parses_count name firstOperand limitOperand stepOperand known (closing_of_ends ends)
  rw [optionPiece_snd] at parses
  simpa only [List.cons_append, List.append_assoc] using parses

theorem written_each {name : String} {collection body : Bare}
    (values : Operand (collection.enclosed collection.words) collection)
    (lines : BlockOf (blockWords body) body) : Written (.each () name collection body true) := by
  apply Written.ofSpells rfl rfl
  rw [words]
  apply spells_construct rfl
  intro rest ends
  have parses : Parses forLoop _ rest _ := parses_each name values lines (closing_of_ends ends)
  simpa only [if_true, List.cons_append, List.append_assoc] using parses

theorem written_loop {condition body : Bare} {block : Bool}
    (test : Operand (condition.enclosed condition.words) condition)
    (known : BodyOf block (if block then blockWords body else body.inlined body.words) body) :
    Written (.loop () condition body block) := by
  apply Written.ofSpells rfl rfl
  rw [words]
  apply spells_construct rfl
  intro rest ends
  have parses : Parses whileLoop _ rest _ := parses_whileLoop test known (closing_of_ends ends)
  simpa only [List.cons_append, List.append_assoc] using parses

theorem written_function {name : Option String} {parameters : List String}
    {optional : List (String × Bare)} {body : Bare} {yields : Bool}
    (named : NamedOperands (namedPieces optional))
    (known : FunctionBodyOf yields (if yields then body.enclosed body.words else blockWords body)
      body) :
    Written (.function () name parameters optional body yields) := by
  apply Written.ofSpells rfl rfl
  rw [words]
  apply spells_construct rfl
  intro rest ends
  have parses : Parses functionDefinition _ rest _ :=
    parses_function name parameters named known
      (ends.imp fun _ known => (Token.opening_pull_of_closes (Token.closes_of_ends known)).2)
  rw [namedPieces_snd] at parses
  simpa only [List.cons_append, List.append_assoc] using parses

theorem written_giveBack {value : Bare} (operand : Operand (value.enclosed value.words) value) :
    Written (.giveBack () (some value)) := by
  apply Written.ofCommand rfl
  rw [words]
  have alone : Spells (fun token => token.closes = true) 0 (value.enclosed value.words) value :=
    (operand.le (Nat.le_refl 9) (Nat.zero_le 9)).mono fun _ _ => trivial
  exact alone.states_giveBack fun _ => id

theorem blockOf_list {items : List Bare} (some : items ≠ [])
    (written : ∀ piece ∈ linePieces items,
      States (fun token => token.ends = true) piece.1 piece.2) :
    BlockOf (blockWords (.list () items)) (.list () items) := by
  intro closer rest shuts
  have pieces : linePieces items ≠ [] := by
    intro none
    rw [← linePieces_snd items, none] at some
    exact some rfl
  have parses : Parses statements _ (closer :: rest) _ := parses_block pieces written shuts
  rw [linePieces_snd] at parses
  exact parses

mutual

theorem Formed.written : ∀ {tree : Bare}, tree.Formed → tree.Written
  | .number _ (.int n), _ => Written.ofPlain rfl (operand_int n)
  | .number _ (.float _), formed => formed.elim
  | .string _ text, _ => Written.ofPlain rfl (operand_string text)
  | .list _ _, formed => written_list (FormedOperands.written formed)
  | .dict _ _, formed => written_dict (FormedEntries.written formed.2) formed.1
  | .access _ name none, _ => Written.ofPlain rfl (operand_name name)
  | .access _ name (some owner), _ => Written.ofPlain rfl (operand_member owner name)
  | .assign _ _ _, formed => written_assign (formed.2.2.written.operand formed.2.1)
  | .binary _ _ _ _, formed =>
      written_binary (formed.1.2.written.operand formed.1.1)
        (formed.2.2.written.operand formed.2.1)
  | .unary _ _ _, formed => written_unary (formed.2.written.operand formed.1)
  | .branch _ _ _, formed =>
      written_branch formed.1 (FormedCases.written formed.2.1) (FormedFinal.written formed.2.2)
  | .count _ _ _ _ _ _ _, ⟨_, first, limit, step, body⟩ =>
      written_count (first.2.written.operand first.1) (limit.2.written.operand limit.1)
        (FormedOption.written step) (bodyOf Formed.written FormedBlock.written body)
  | .each _ _ _ _ _, ⟨_, values, block, lines⟩ => by
      subst block
      exact written_each (values.2.written.operand values.1) (FormedBlock.written lines)
  | .loop _ _ _ _, ⟨test, body⟩ =>
      written_loop (test.2.written.operand test.1) (bodyOf Formed.written FormedBlock.written body)
  | .function _ _ _ _ _ true, ⟨_, _, named, body⟩ =>
      written_function (FormedNamed.written named) (body.2.written.operand body.1)
  | .function _ _ _ _ _ false, ⟨_, _, named, body⟩ =>
      written_function (FormedNamed.written named) (FormedBlock.written body)
  | .call _ _ _ _, ⟨callee, arguments, named⟩ =>
      written_call (callee.2.written.operand callee.1) (FormedOperands.written arguments)
        (FormedNamed.written named)
  | .giveBack _ none, _ => Written.ofCommand rfl (states_giveBack_nothing fun _ => id)
  | .giveBack _ (some _), formed => written_giveBack (formed.2.written.operand formed.1)
  | .skip _, _ => Written.ofCommand rfl states_skip
  | .leave _, _ => Written.ofCommand rfl states_leave

theorem FormedBlock.written : ∀ {body : Bare}, FormedBlock body → BlockOf (blockWords body) body
  | .list _ _, formed => blockOf_list formed.1 (FormedLines.written formed.2)

theorem FormedOperands.written : ∀ {items : List Bare}, FormedOperands items →
    Operands (operandPieces items)
  | [], _ => List.forall_mem_nil _
  | _ :: _, formed =>
      List.forall_mem_cons.mpr ⟨formed.1.2.written.operand formed.1.1,
        FormedOperands.written formed.2⟩

theorem FormedLines.written : ∀ {items : List Bare}, FormedLines items →
    ∀ piece ∈ linePieces items, States (fun token => token.ends = true) piece.1 piece.2
  | [], _ => List.forall_mem_nil _
  | _ :: _, formed =>
      List.forall_mem_cons.mpr ⟨formed.1.written.line, FormedLines.written formed.2⟩

theorem FormedEntries.written : ∀ {entries : List ((Unit × String) × Bare)},
    FormedEntries entries → NamedOperands (entryPieces entries)
  | [], _ => List.forall_mem_nil _
  | ((_, _), _) :: _, formed =>
      List.forall_mem_cons.mpr ⟨formed.2.1.2.written.operand formed.2.1.1,
        FormedEntries.written formed.2.2⟩

theorem FormedNamed.written : ∀ {named : List (String × Bare)},
    FormedNamed named → NamedOperands (namedPieces named)
  | [], _ => List.forall_mem_nil _
  | (_, _) :: _, formed =>
      List.forall_mem_cons.mpr ⟨formed.2.1.2.written.operand formed.2.1.1,
        FormedNamed.written formed.2.2⟩

theorem FormedOption.written : ∀ {value : Option Bare}, FormedOption value →
    ∀ part ∈ optionPiece value, Operand part.1 part.2
  | none, _ => fun _ member => nomatch member
  | some _, formed => fun part member => by
      obtain rfl := Option.some.inj member
      exact formed.2.written.operand formed.1

theorem FormedCases.written : ∀ {cases : List (Bare × Bare × Bool)}, FormedCases cases →
    ∀ case ∈ casePieces cases, case.Written
  | [], _ => List.forall_mem_nil _
  | (_, _, _) :: _, ⟨test, body, rest⟩ =>
      List.forall_mem_cons.mpr ⟨⟨test.2.written.operand test.1,
        bodyOf Formed.written FormedBlock.written body⟩, FormedCases.written rest⟩

theorem FormedFinal.written : ∀ {otherwise : Option (Bare × Bool)}, FormedFinal otherwise →
    ∀ part ∈ finalPiece otherwise, BodyOf part.1 part.2.1 part.2.2
  | none, _ => fun _ member => nomatch member
  | some (_, _), formed => fun part member => by
      obtain rfl := Option.some.inj member
      exact bodyOf Formed.written FormedBlock.written formed

end

end Tree

end Lingo
