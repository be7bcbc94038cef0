/-
From a tree to a text and back.

The words of a tree that can be written can be spelt, so that the reader of the text finds
just these words, and the grammar the tree.
-/

import Lingo.Proofs.Grammar.Printing

namespace Lingo

attribute [local instance (high)] instPowNat

open Grammar

variable {words : List Token}

/-! ### Words that can be spelt -/

def AllWritable (words : List Token) : Prop :=
  ∀ token ∈ words, token.Writable

@[simp] theorem allWritable_nil : AllWritable [] :=
  List.forall_mem_nil _

@[simp] theorem allWritable_cons {token : Token} :
    AllWritable (token :: words) ↔ token.Writable ∧ AllWritable words :=
  List.forall_mem_cons

@[simp] theorem allWritable_append {others : List Token} :
    AllWritable (words ++ others) ↔ AllWritable words ∧ AllWritable others :=
  List.forall_mem_append

@[simp] theorem writable_keyword (word : Keyword) : (Token.keyword word).Writable :=
  trivial

@[simp] theorem writable_symbol (symbol : Symbol) : (Token.symbol symbol).Writable :=
  trivial

@[simp] theorem writable_newline : Token.newline.Writable :=
  trivial

theorem writable_binary (op : BinaryOp) : op.token.Writable := by
  cases op <;> trivial

theorem writable_unary (op : UnaryOp) : op.token.Writable := by
  cases op <;> trivial

theorem allWritable_separated {separator : Token} {pieces : List (List Token)}
    (known : separator.Writable) (all : ∀ piece ∈ pieces, AllWritable piece) :
    AllWritable (separated separator pieces) := by
  cases pieces with
  | nil => exact allWritable_nil
  | cons first others =>
      rw [separated, allWritable_append]
      refine ⟨all first List.mem_cons_self, ?_⟩
      intro token member
      obtain ⟨piece, inside, found⟩ := List.mem_flatMap.mp member
      rcases List.mem_cons.mp found with rfl | deeper
      · exact known
      · exact all piece (List.mem_cons_of_mem first inside) token deeper

theorem allWritable_argumentWords {positional : List (List Token)}
    {named : List (String × List Token × Bare)} (all : ∀ piece ∈ positional, AllWritable piece)
    (allNamed : ∀ piece ∈ named, IsName piece.1 ∧ AllWritable piece.2.1) :
    AllWritable (argumentWords positional named) := by
  apply allWritable_separated (writable_symbol .comma)
  intro piece member
  rcases List.mem_append.mp member with before | after
  · exact all piece before
  · obtain ⟨item, inside, rfl⟩ := List.mem_map.mp after
    obtain ⟨known, value⟩ := allNamed item inside
    simp only [namedSpelling, allWritable_cons]
    exact ⟨known, trivial, value⟩

theorem allWritable_nameWords {names : List String} (known : ∀ name ∈ names, IsName name) :
    ∀ piece ∈ nameWords names, AllWritable piece := by
  intro piece member
  obtain ⟨name, inside, rfl⟩ := List.mem_map.mp member
  rw [allWritable_cons]
  exact ⟨known name inside, allWritable_nil⟩

theorem allWritable_headWords {name : Option String} (known : ∀ word ∈ name, IsName word) :
    AllWritable (headWords name) := by
  cases name with
  | none => exact allWritable_nil
  | some name =>
      rw [headWords, allWritable_cons]
      exact ⟨known name rfl, allWritable_nil⟩

theorem allWritable_functionTail (yields : Bool) (all : AllWritable words) :
    AllWritable (functionTail yields words) := by
  cases yields with
  | true => simp [functionTail, all]
  | false => simp [functionTail, all]

section

variable {words : List Token} (block : Bool) (all : AllWritable words)

include block all

theorem allWritable_closedBody : AllWritable (closedBody block words) := by
  cases block with
  | true => simp [closedBody, all]
  | false => exact all

theorem allWritable_openBody : AllWritable (openBody block words) := by
  cases block with
  | true => simp [openBody, all]
  | false => exact all

theorem allWritable_concluded : AllWritable (concluded block words) := by
  unfold concluded
  split
  · simp
  · exact all

end

theorem allWritable_caseWords {final : List Token} (last : AllWritable final) :
    ∀ (chain : List Case) (word : Keyword),
      (∀ case ∈ chain, AllWritable case.test.1 ∧ AllWritable case.body.1) →
      AllWritable (caseWords final word chain) := by
  intro chain
  induction chain with
  | nil =>
      intro word _
      exact last
  | cons case others ih =>
      intro word all
      obtain ⟨test, body⟩ := all case List.mem_cons_self
      have more := ih .elifWord fun other member => all other (List.mem_cons_of_mem case member)
      simp only [caseWords, allWritable_cons, allWritable_append]
      exact ⟨trivial, test, trivial, allWritable_openBody case.block body,
        allWritable_concluded case.block more⟩

theorem allWritable_enclosed (tree : Bare) (all : AllWritable words) :
    AllWritable (tree.enclosed words) := by
  unfold Tree.enclosed
  split
  · exact all
  · simp [all]

theorem allWritable_inlined (tree : Bare) (all : AllWritable words) :
    AllWritable (tree.inlined words) := by
  unfold Tree.inlined
  split
  · exact all
  · exact allWritable_enclosed tree all

namespace Tree

theorem allWritable_bodyOf {tree : Bare} {block : Bool}
    (inline : tree.Formed → AllWritable tree.words)
    (lines : FormedBlock tree → AllWritable (blockWords tree))
    (formed : if block then FormedBlock tree else tree.Formed) :
    AllWritable (if block then blockWords tree else tree.inlined tree.words) := by
  cases block with
  | true => exact lines formed
  | false => exact allWritable_inlined tree (inline formed)

mutual

theorem Formed.writable : ∀ {tree : Bare}, tree.Formed → AllWritable tree.words
  | .number _ _, formed => by
      simp only [words, allWritable_cons, allWritable_nil, and_true]
      exact formed
  | .string _ _, formed => by
      simp only [words, allWritable_cons, allWritable_nil, and_true]
      exact formed
  | .list _ items, formed => by
      simp only [words, allWritable_cons, allWritable_append, writable_symbol, allWritable_nil,
        true_and, and_true]
      exact allWritable_separated (writable_symbol .comma) (FormedOperands.writable formed)
  | .dict _ entries, formed => by
      simp only [words, allWritable_cons, allWritable_append, writable_symbol, allWritable_nil,
        true_and, and_true]
      exact allWritable_separated (writable_symbol .comma) (FormedEntries.writable formed.2)
  | .access _ _ none, formed => by
      simp only [words, allWritable_cons, allWritable_nil, and_true]
      exact formed
  | .access _ _ (some _), formed => by
      simp only [words, allWritable_cons, writable_symbol, allWritable_nil, true_and, and_true]
      exact ⟨formed.2, formed.1⟩
  | .assign _ _ value, ⟨name, _, formed⟩ => by
      simp only [words, allWritable_cons, writable_symbol, writable_keyword, true_and]
      exact ⟨name, allWritable_enclosed value formed.writable⟩
  | .binary _ op left right, ⟨⟨_, first⟩, _, second⟩ => by
      simp only [words, allWritable_cons, allWritable_append]
      exact ⟨allWritable_enclosed left first.writable, writable_binary op,
        allWritable_enclosed right second.writable⟩
  | .unary _ op operand, ⟨_, formed⟩ => by
      simp only [words, allWritable_cons]
      exact ⟨writable_unary op, allWritable_enclosed operand formed.writable⟩
  | .branch _ _ _, ⟨_, cases, final⟩ => by
      rw [words]
      exact allWritable_caseWords (FormedFinal.writable final) _ _ (FormedCases.writable cases)
  | .count _ _ first limit _ _ _, ⟨name, ⟨_, formedFirst⟩, ⟨_, formedLimit⟩, step, body⟩ => by
      simp only [words, allWritable_cons, allWritable_append, writable_symbol, writable_keyword,
        true_and]
      exact ⟨name, allWritable_enclosed first formedFirst.writable,
        allWritable_enclosed limit formedLimit.writable, FormedOption.writable step,
        allWritable_closedBody _ (allWritable_bodyOf Formed.writable FormedBlock.writable body)⟩
  | .each _ _ collection _ _, ⟨name, ⟨_, values⟩, block, lines⟩ => by
      subst block
      simp only [words, allWritable_cons, allWritable_append, writable_symbol, writable_keyword,
        true_and]
      exact ⟨name, allWritable_enclosed collection values.writable,
        allWritable_closedBody true (FormedBlock.writable lines)⟩
  | .loop _ condition _ _, ⟨⟨_, test⟩, body⟩ => by
      simp only [words, allWritable_cons, allWritable_append, writable_symbol, writable_keyword,
        true_and]
      exact ⟨allWritable_enclosed condition test.writable,
        allWritable_closedBody _ (allWritable_bodyOf Formed.writable FormedBlock.writable body)⟩
  | .function _ _ _ _ body yields, ⟨named, parameters, optional, formed⟩ => by
      simp only [words, allWritable_cons, allWritable_append, writable_symbol, writable_keyword,
        true_and]
      refine ⟨allWritable_headWords named, allWritable_argumentWords
        (allWritable_nameWords parameters) (FormedNamed.writable optional),
        allWritable_functionTail yields ?_⟩
      cases yields with
      | true => exact allWritable_enclosed body formed.2.writable
      | false => exact FormedBlock.writable formed
  | .call _ callee _ _, ⟨⟨_, formed⟩, arguments, named⟩ => by
      simp only [words, allWritable_cons, allWritable_append, writable_symbol, allWritable_nil,
        true_and, and_true]
      exact ⟨allWritable_enclosed callee formed.writable,
        allWritable_argumentWords (FormedOperands.writable arguments) (FormedNamed.writable named)⟩
  | .giveBack _ none, _ => by
      simp [words]
  | .giveBack _ (some value), ⟨_, formed⟩ => by
      simp only [words, allWritable_cons, writable_keyword, true_and]
      exact allWritable_enclosed value formed.writable
  | .skip _, _ => by
      simp [words]
  | .leave _, _ => by
      simp [words]

theorem FormedBlock.writable : ∀ {body : Bare}, FormedBlock body → AllWritable (blockWords body)
  | .list _ _, formed => allWritable_separated writable_newline (FormedLines.writable formed.2)

theorem FormedOperands.writable : ∀ {items : List Bare}, FormedOperands items →
    ∀ piece ∈ (operandPieces items).map Prod.fst, AllWritable piece
  | [], _ => List.forall_mem_nil _
  | tree :: _, formed =>
      List.forall_mem_cons.mpr ⟨allWritable_enclosed tree formed.1.2.writable,
        FormedOperands.writable formed.2⟩

theorem FormedLines.writable : ∀ {items : List Bare}, FormedLines items →
    ∀ piece ∈ (linePieces items).map Prod.fst, AllWritable piece
  | [], _ => List.forall_mem_nil _
  | _ :: _, formed =>
      List.forall_mem_cons.mpr ⟨formed.1.writable, FormedLines.writable formed.2⟩

theorem FormedEntries.writable : ∀ {entries : List ((Unit × String) × Bare)},
    FormedEntries entries → ∀ piece ∈ (entryPieces entries).map entrySpelling, AllWritable piece
  | [], _ => List.forall_mem_nil _
  | ((_, _), tree) :: _, ⟨key, ⟨_, value⟩, rest⟩ => fun piece member => by
      rcases List.mem_cons.mp member with rfl | later
      · simp only [entrySpelling, allWritable_cons]
        exact ⟨key, trivial, allWritable_enclosed tree value.writable⟩
      · exact FormedEntries.writable rest piece later

theorem FormedNamed.writable : ∀ {named : List (String × Bare)}, FormedNamed named →
    ∀ piece ∈ namedPieces named, IsName piece.1 ∧ AllWritable piece.2.1
  | [], _ => List.forall_mem_nil _
  | (_, tree) :: _, ⟨name, ⟨_, value⟩, rest⟩ =>
      List.forall_mem_cons.mpr ⟨⟨name, allWritable_enclosed tree value.writable⟩,
        FormedNamed.writable rest⟩

theorem FormedOption.writable : ∀ {value : Option Bare}, FormedOption value →
    AllWritable (stepWords (optionPiece value))
  | none, _ => allWritable_nil
  | some tree, ⟨_, formed⟩ => by
      simp only [optionPiece, stepWords, allWritable_cons]
      exact ⟨trivial, allWritable_enclosed tree formed.writable⟩

theorem FormedCases.writable : ∀ {cases : List (Bare × Bare × Bool)}, FormedCases cases →
    ∀ case ∈ casePieces cases, AllWritable case.test.1 ∧ AllWritable case.body.1
  | [], _ => List.forall_mem_nil _
  | (condition, _, _) :: _, ⟨⟨_, test⟩, body, rest⟩ =>
      List.forall_mem_cons.mpr ⟨⟨allWritable_enclosed condition test.writable,
        allWritable_bodyOf Formed.writable FormedBlock.writable body⟩, FormedCases.writable rest⟩

theorem FormedFinal.writable : ∀ {otherwise : Option (Bare × Bool)}, FormedFinal otherwise →
    AllWritable (otherwiseWords (finalPiece otherwise))
  | none, _ => allWritable_nil
  | some (_, block), formed => by
      simp only [finalPiece, otherwiseWords, allWritable_cons]
      exact ⟨trivial, trivial, allWritable_closedBody block
        (allWritable_bodyOf Formed.writable FormedBlock.writable formed)⟩

end

/-! ### Texts -/

def text (statements : List Bare) : String :=
  spell (separated .newline ((linePieces statements).map Prod.fst))

theorem formedLines_of_forall {statements : List Bare}
    (formed : ∀ statement ∈ statements, statement.Formed) : FormedLines statements := by
  induction statements with
  | nil => trivial
  | cons first rest ih =>
      refine ⟨formed first List.mem_cons_self, ih ?_⟩
      intro statement member
      exact formed statement (List.mem_cons_of_mem first member)

/-- Reading undoes writing: the text of statements that can be written is read as these
statements. -/
theorem script_undoes_text (name : String) (statements : List Bare)
    (formed : ∀ statement ∈ statements, statement.Formed) :
    ∃ placed tree after, Lexer.read { name, text := text statements } = .tokens placed ∧
      Grammar.run Grammar.script placed = .ok (.success tree, after) ∧
        tree.bare = .list () statements := by
  have lines := formedLines_of_forall formed
  have writable := allWritable_separated writable_newline (FormedLines.writable lines)
  obtain ⟨placed, lexed, tokens⟩ := Lexer.read_spell name writable
  obtain ⟨tree, after, done, same⟩ := run_script_of_states tokens (FormedLines.written lines)
  refine ⟨placed, tree, after, lexed, done, ?_⟩
  rw [same, linePieces_snd]

def mixedScript : List Bare :=
  [.function () (some "f") ["n"] [("m", .number () (.int 2))]
      (.list ()
        [.branch ()
          [(.access () "n" none, .list () [.giveBack () none, .leave ()], true),
            (.unary () .negation (.access () "n" none), .skip (), false)]
          (some (.giveBack () (some (.binary () .pow (.access () "n" none) (.access () "m" none))),
            false))])
      false,
    .call () (.access () "f" none) [.number () (.int 7)] [("m", .string () "two lines")]]

theorem mixedScript_undoes_text :
    (∀ statement ∈ mixedScript, statement.Formed) ∧
      ∃ placed tree after,
        Lexer.read { name := "<stdin>", text := text mixedScript } = .tokens placed ∧
          Grammar.run Grammar.script placed = .ok (.success tree, after) ∧
            tree.bare = .list () mixedScript := by
  have f : IsName "f" := ⟨⟨'f', [], rfl, rfl, by simp⟩, by intro word; cases word <;> decide⟩
  have n : IsName "n" := ⟨⟨'n', [], rfl, rfl, by simp⟩, by intro word; cases word <;> decide⟩
  have m : IsName "m" := ⟨⟨'m', [], rfl, rfl, by simp⟩, by intro word; cases word <;> decide⟩
  have digit : ∀ value < 10, value < 10 ^ Numeral.digitLimit := fun _ small =>
    Nat.lt_of_lt_of_le small (Nat.le_self_pow (by decide) 10)
  have two : (Literal.int 2).token.Writable := digit 2 (by decide)
  have seven : (Literal.int 7).token.Writable := digit 7 (by decide)
  have quoted : (Token.string "two lines").Writable := by
    change ∀ char ∈ "two lines".toList, char ≠ '"' ∧ char ≠ '\\'
    simp
  have formed : ∀ statement ∈ mixedScript, statement.Formed := by
    simp [mixedScript, Formed, FormedBlock, FormedLines, FormedOperands, FormedNamed, FormedCases,
      FormedFinal, FormedOption, isCommand, f, n, m, two, seven, quoted]
  exact ⟨formed, script_undoes_text "<stdin>" mixedScript formed⟩

end Tree

end Lingo
