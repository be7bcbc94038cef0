/-
What is open at a place among the tokens.

A phrase closes what it opens, but for the bodies of branches, which need no closing word.  Such a
body is closed by the bracket around it at the latest.  So nothing is open behind a script in
which no branch has a body on lines of its own.
-/

import Lingo.Proofs.Eval.Faults
import Lingo.Proofs.Grammar.Success

namespace Lingo

open Rule (Begins)

variable {token : Token}

/-! ### Plain trees -/

namespace Tree

variable {σ : Type}

theorem Everywhere.part {property : Tree σ → Prop} {tree part : Tree σ}
    (whole : tree.Everywhere property) (among : part ∈ tree.parts) : part.Everywhere property := by
  cases whole with
  | intro _ inside => exact inside part among

def branchesInline : Tree σ → Prop
  | branch _ cases otherwise =>
      (∀ case ∈ cases, case.2.2 = false) ∧ ∀ final ∈ otherwise, final.2 = false
  | _ => True

/-- No branch in a tree has a body on lines of its own. -/
abbrev Plain (tree : Tree σ) : Prop :=
  tree.Everywhere branchesInline

structure PlainChain (cases : List (Tree σ × Tree σ × Bool)) (otherwise : Option (Tree σ × Bool)) :
    Prop where
  cases : ∀ case ∈ cases, case.1.Plain ∧ case.2.1.Plain ∧ case.2.2 = false
  otherwise : ∀ final ∈ otherwise, final.1.Plain ∧ final.2 = false

theorem Plain.chain {place : σ} {cases : List (Tree σ × Tree σ × Bool)}
    {otherwise : Option (Tree σ × Bool)} (plain : (branch place cases otherwise).Plain) :
    PlainChain cases otherwise := by
  cases plain with
  | intro here inside =>
      obtain ⟨inCases, inOtherwise⟩ := List.forall_mem_append.mp inside
      constructor
      · intro case among
        have both : ∀ tree ∈ [case.1, case.2.1], tree.Plain :=
          fun tree inCase => inCases tree (List.mem_flatMap.mpr ⟨case, among, inCase⟩)
        exact ⟨both _ List.mem_cons_self, both _ (List.mem_cons_of_mem _ List.mem_cons_self),
          here.1 case among⟩
      · intro final among
        exact ⟨inOtherwise _ (List.mem_map_of_mem (Option.mem_toList.mpr among)), here.2 final among⟩

theorem PlainChain.tail {case : Tree σ × Tree σ × Bool} {cases : List (Tree σ × Tree σ × Bool)}
    {otherwise : Option (Tree σ × Bool)} (plain : PlainChain (case :: cases) otherwise) :
    PlainChain cases otherwise :=
  ⟨fun other among => plain.cases other (List.mem_cons_of_mem case among), plain.otherwise⟩

end Tree

/-! ### Nests -/

/-- Something that is open: a colon that was read last, a body on lines of its own, or a bracket. -/
inductive Opening where
  | colon
  | block
  | bracket
deriving DecidableEq

abbrev Nest := List Opening

/-- A token that neither opens nor closes anything. -/
def Token.isCalm : Token → Bool
  | newline | symbol .colon | symbol .leftParen | symbol .leftSquare | symbol .leftCurly
  | symbol .rightParen | symbol .rightSquare | symbol .rightCurly | keyword .endWord => false
  | _ => true

theorem BinaryOp.isCalm_token (op : BinaryOp) : op.token.isCalm = true := by
  cases op <;> rfl

theorem UnaryOp.isCalm_token (op : UnaryOp) : op.token.isCalm = true := by
  cases op <;> rfl

namespace Nest

/-- A colon in front of something else than a line end opens nothing. -/
def settle : Nest → Nest
  | .colon :: nest => nest
  | nest => nest

def pass (nest : Nest) : Token → Nest
  | .newline =>
      match nest with
      | .colon :: outer => .block :: outer
      | _ => nest
  | .symbol .colon => .colon :: settle nest
  | .symbol .leftParen | .symbol .leftSquare | .symbol .leftCurly => .bracket :: settle nest
  | .symbol .rightParen | .symbol .rightSquare | .symbol .rightCurly =>
      ((settle nest).dropWhile (· ≠ .bracket)).tail
  | .keyword .endWord => (settle nest).tail
  | _ => settle nest

def behind (nest : Nest) (words : List Token) : Nest :=
  words.foldl pass nest

theorem behind_append (nest : Nest) (words others : List Token) :
    nest.behind (words ++ others) = (nest.behind words).behind others :=
  List.foldl_append ..

variable {nest : Nest}

theorem settle_blocks (settled : nest.settle = nest) (count : Nat) :
    settle (List.replicate count .block ++ nest) = List.replicate count .block ++ nest := by
  cases count with
  | zero => exact settled
  | succ count => rfl

theorem blocks_cons (nest : Nest) (count : Nat) :
    List.replicate count .block ++ .block :: nest = List.replicate (count + 1) .block ++ nest := by
  rw [List.replicate_succ', List.append_assoc]
  rfl

theorem pass_calm (calm : token.isCalm = true) : nest.pass token = nest.settle := by
  unfold pass
  split <;> first | rfl | cases calm

theorem pass_newline (settled : nest.settle = nest) : nest.pass .newline = nest := by
  match nest with
  | .colon :: outer => exact absurd settled (List.cons_ne_self _ _).symm
  | .block :: outer => rfl
  | .bracket :: outer => rfl
  | [] => rfl

theorem pass_block (settled : nest.settle = nest) :
    (nest.pass (.symbol .colon)).pass .newline = .block :: nest :=
  congrArg (Opening.block :: ·) settled

theorem pass_colon (settled : nest.settle = nest) (other : token ≠ .newline) :
    pass (.colon :: nest) token = nest.pass token := by
  have same : settle (.colon :: nest) = nest.settle := settled.symm
  unfold pass
  split
  · exact absurd rfl other
  all_goals rw [same]

end Nest

/-! ### Words that close what they open -/

open Nest

/-- Words close what they open, but for bodies of branches, and these too if they are plain. -/
def Closes (plain : Prop) (words : List Token) : Prop :=
  ∀ nest : Nest, nest.settle = nest →
    ∃ count, nest.behind words = List.replicate count .block ++ nest ∧ (plain → count = 0)

/-- Words that close what they open and do not begin with a line end. -/
structure Solid (plain : Prop) (words : List Token) : Prop where
  begins : Begins (· ≠ .newline) words
  closes : Closes plain words

variable {plain plainer : Prop} {words others : List Token}

theorem Closes.imp (closes : Closes plain words) (entails : plainer → plain) :
    Closes plainer words := by
  intro nest settled
  obtain ⟨count, reached, none⟩ := closes nest settled
  exact ⟨count, reached, fun holds => none (entails holds)⟩

theorem Closes.lax (closes : Closes plain words) : Closes False words :=
  closes.imp False.elim

theorem Solid.imp (solid : Solid plain words) (entails : plainer → plain) : Solid plainer words :=
  ⟨solid.begins, solid.closes.imp entails⟩

theorem closes_nil : Closes plain [] :=
  fun _ _ => ⟨0, rfl, fun _ => rfl⟩

theorem Closes.append (first : Closes plain words) (second : Closes plain others) :
    Closes plain (words ++ others) := by
  intro nest settled
  obtain ⟨count, reached, none⟩ := first nest settled
  obtain ⟨more, ended, noMore⟩ := second _ (settle_blocks settled count)
  refine ⟨more + count, ?_, fun holds => ?_⟩
  · rw [behind_append, reached, ended, ← List.append_assoc, List.replicate_append_replicate]
  · rw [none holds, noMore holds]

theorem Solid.append (first : Solid plain words) (second : Closes plain others) :
    Solid plain (words ++ others) :=
  ⟨first.begins.append others, first.closes.append second⟩

theorem Closes.cons (closes : Closes plain words) (calm : token.isCalm = true) :
    Solid plain (token :: words) := by
  refine ⟨fun same => ?_, fun nest settled => ?_⟩
  · rw [same] at calm
    cases calm
  · obtain ⟨count, reached, none⟩ := closes nest settled
    refine ⟨count, ?_, none⟩
    rw [← reached, behind, List.foldl_cons, pass_calm calm, settled]
    rfl

theorem solid_token (calm : token.isCalm = true) : Solid plain [token] :=
  closes_nil.cons calm

theorem closes_lineEnds (lines : Phrase.LineEnds words) : Closes plain words := by
  induction words with
  | nil => exact closes_nil
  | cons word words ih =>
      obtain ⟨rfl, rest⟩ := List.forall_mem_cons.mp lines
      intro nest settled
      obtain ⟨count, reached, none⟩ := ih rest nest settled
      refine ⟨count, ?_, none⟩
      rw [← reached, behind, List.foldl_cons, pass_newline settled]
      rfl

structure Brackets (opening closing : Token) : Prop where
  other : opening ≠ .newline
  opens : ∀ nest, pass nest opening = .bracket :: nest.settle
  shuts : ∀ nest, pass nest closing = (nest.settle.dropWhile (· ≠ .bracket)).tail

theorem brackets_paren : Brackets (.symbol .leftParen) (.symbol .rightParen) :=
  ⟨Token.noConfusion, fun _ => rfl, fun _ => rfl⟩

theorem brackets_square : Brackets (.symbol .leftSquare) (.symbol .rightSquare) :=
  ⟨Token.noConfusion, fun _ => rfl, fun _ => rfl⟩

theorem brackets_curly : Brackets (.symbol .leftCurly) (.symbol .rightCurly) :=
  ⟨Token.noConfusion, fun _ => rfl, fun _ => rfl⟩

/-- Whatever is left open inside brackets is closed with them. -/
theorem Brackets.solid {opening closing : Token} (brackets : Brackets opening closing)
    (inner : Closes False words) : Solid plain (opening :: (words ++ [closing])) := by
  refine ⟨brackets.other, fun nest settled => ⟨0, ?_, fun _ => rfl⟩⟩
  obtain ⟨count, reached, _⟩ := inner (.bracket :: nest) rfl
  have begun : nest.behind (opening :: (words ++ [closing])) =
      (behind (.bracket :: nest) words).pass closing := by
    rw [behind, List.foldl_cons, brackets.opens, settled, List.foldl_append]
    rfl
  rw [begun, reached, brackets.shuts, settle_blocks rfl, List.dropWhile_append_of_pos]
  · rfl
  · intro opening among
    rw [List.eq_of_mem_replicate among]
    rfl

theorem Closes.block (inner : Closes plain words) :
    Closes plain (.symbol .colon :: .newline :: (words ++ [.keyword .endWord])) := by
  intro nest settled
  obtain ⟨count, reached, none⟩ := inner (.block :: nest) rfl
  refine ⟨count, ?_, none⟩
  have begun : nest.behind (.symbol .colon :: .newline :: (words ++ [.keyword .endWord])) =
      (behind (.block :: nest) words).pass (.keyword .endWord) := by
    rw [behind, List.foldl_cons, List.foldl_cons, List.foldl_append, pass_block settled]
    rfl
  rw [begun, reached, Nest.pass, settle_blocks rfl, blocks_cons]
  rfl

theorem Closes.leftOpen (inner : Closes plain words) :
    Closes False (.symbol .colon :: .newline :: words) := by
  intro nest settled
  obtain ⟨count, reached, _⟩ := inner (.block :: nest) rfl
  refine ⟨count + 1, ?_, False.elim⟩
  have begun : nest.behind (.symbol .colon :: .newline :: words) = behind (.block :: nest) words := by
    rw [behind, List.foldl_cons, List.foldl_cons, pass_block settled]
    rfl
  rw [begun, reached, blocks_cons]

theorem Solid.inline (solid : Solid plain words) : Closes plain (.symbol .colon :: words) := by
  intro nest settled
  obtain ⟨count, reached, none⟩ := solid.closes nest settled
  refine ⟨count, ?_, none⟩
  obtain ⟨token, rest, rfl, other⟩ := solid.begins.exists_eq_cons
  rw [← reached, behind, List.foldl_cons, List.foldl_cons, Nest.pass, settled,
    pass_colon settled other]
  rfl

/-! ### Phrases -/

theorem Solid.chain {left operand : Bare} {op : BinaryOp} (first : Solid left.Plain words)
    (second : Solid operand.Plain others) :
    Solid (Tree.binary () op left operand).Plain (words ++ op.token :: others) := by
  refine (first.imp fun plain => plain.part ?_).append
    ((second.imp fun plain => plain.part ?_).closes.cons op.isCalm_token).closes
  · exact List.mem_cons_self
  · exact List.mem_cons_of_mem _ List.mem_cons_self

theorem Closes.comma (first : Closes False words) (second : Solid plain others) :
    Closes False (words ++ .symbol .comma :: others) :=
  first.append (second.closes.lax.cons rfl).closes

theorem closes_names {names : List String} (read : Phrase.AfterCommas Phrase.Name words names) :
    Closes False words := by
  induction read with
  | none => exact closes_nil
  | more _ behind ih =>
      rw [behind]
      have name : ∀ name, Solid False [.identifier name] := fun _ => solid_token rfl
      exact ih.comma (name _)

theorem closes_head {name : Option String} (called : words = (name.map Token.identifier).toList) :
    Closes plain words := by
  rw [called]
  cases name with
  | none => exact closes_nil
  | some name => exact (solid_token rfl).closes

namespace Phrase

mutual

theorem Statements.closes : ∀ {words tree}, Statements words tree → Closes tree.Plain words
  | _, _, .lines opening head tail closing => by
      refine (closes_lineEnds opening).append ((head.solid.imp ?_).closes.append
        ((tail.closes.imp ?_).append (closes_lineEnds closing)))
      · exact fun plain => plain.part List.mem_cons_self
      · exact fun plain tree among => plain.part (List.mem_cons_of_mem _ among)

theorem MoreStatements.closes : ∀ {words trees}, MoreStatements words trees →
    Closes (∀ tree ∈ trees, tree.Plain) words
  | _, _, .none => closes_nil
  | _, _, .more before ends _ behind => by
      refine (before.closes.imp ?_).append ((closes_lineEnds ends).append
        (behind.solid.imp ?_).closes)
      · exact fun plain => (List.forall_mem_append.mp plain).1
      · exact fun plain => (List.forall_mem_append.mp plain).2 _ List.mem_cons_self

theorem Statement.solid : ∀ {words tree}, Statement words tree → Solid tree.Plain words
  | _, _, .giveBack => solid_token rfl
  | _, _, .giveBackValue given =>
      (given.solid.imp fun plain => plain.part List.mem_cons_self).closes.cons rfl
  | _, _, .skip => solid_token rfl
  | _, _, .leave => solid_token rfl
  | _, _, .expr only => only.solid

theorem Expr.solid : ∀ {words tree}, Expr words tree → Solid tree.Plain words
  | _, _, .assign given => by
      refine ((Closes.cons ?_ rfl).closes.cons rfl).closes.cons rfl
      exact given.solid.closes.imp fun plain => plain.part List.mem_cons_self
  | _, _, .logic chain => solid_comparisons chain

theorem solid_comparisons : ∀ {words tree},
    Chain [.both, .either] Comparison Comparison words tree → Solid tree.Plain words
  | _, _, .one only => only.solid
  | _, _, .more before _ behind => (solid_comparisons before).chain behind.solid

theorem Comparison.solid : ∀ {words tree}, Comparison words tree → Solid tree.Plain words
  | _, _, .negation inner =>
      (inner.solid.imp fun plain => plain.part List.mem_cons_self).closes.cons rfl
  | _, _, .order chain => solid_sums chain

theorem solid_sums : ∀ {words tree},
    Chain [.eq, .ne, .lt, .gt, .le, .ge] Sum Sum words tree → Solid tree.Plain words
  | _, _, .one only => only.solid
  | _, _, .more before _ behind => (solid_sums before).chain behind.solid

theorem Sum.solid : ∀ {words tree}, Sum words tree → Solid tree.Plain words
  | _, _, .terms chain => solid_products chain

theorem solid_products : ∀ {words tree},
    Chain [.add, .sub] Product Product words tree → Solid tree.Plain words
  | _, _, .one only => only.solid
  | _, _, .more before _ behind => (solid_products before).chain behind.solid

theorem Product.solid : ∀ {words tree}, Product words tree → Solid tree.Plain words
  | _, _, .factors chain => solid_factors chain

theorem solid_factors : ∀ {words tree},
    Chain [.mul, .div, .floorDiv, .mod] Factor Factor words tree → Solid tree.Plain words
  | _, _, .one only => only.solid
  | _, _, .more before _ behind => (solid_factors before).chain behind.solid

theorem Factor.solid : ∀ {words tree}, Factor words tree → Solid tree.Plain words
  | _, _, .sign _ inner =>
      (inner.solid.imp fun plain => plain.part List.mem_cons_self).closes.cons
        (UnaryOp.isCalm_token _)
  | _, _, .power only => only.solid

theorem Power.solid : ∀ {words tree}, Power words tree → Solid tree.Plain words
  | _, _, .calls chain => solid_calls chain

theorem solid_calls : ∀ {words tree}, Chain [.pow] Call Factor words tree → Solid tree.Plain words
  | _, _, .one only => only.solid
  | _, _, .more before _ behind => (solid_calls before).chain behind.solid

theorem Call.solid : ∀ {words tree}, Call words tree → Solid tree.Plain words
  | _, _, .atom only => only.solid
  | _, _, .call head given =>
      (head.solid.imp fun plain => plain.part List.mem_cons_self).append
        (brackets_paren.solid given.closes).closes

theorem Arguments.closes : ∀ {words positional optional}, Arguments words positional optional →
    Closes False words
  | _, _, _, .none => closes_nil
  | _, _, _, .positional head tail => head.solid.closes.lax.append (closes_exprs tail)
  | _, _, _, .optional head tail _ behind further =>
      head.solid.closes.lax.append ((closes_exprs tail).append
        ((behind.solid.closes.lax.append (closes_named further)).cons rfl).closes)

theorem closes_exprs : ∀ {words trees}, AfterCommas Expr words trees → Closes False words
  | _, _, .none => closes_nil
  | _, _, .more before behind => (closes_exprs before).comma behind.solid

theorem closes_named : ∀ {words named}, AfterCommas Named words named → Closes False words
  | _, _, .none => closes_nil
  | _, _, .more before behind => (closes_named before).comma behind.solid

theorem Named.solid : ∀ {words named}, Named words named → Solid False words
  | _, _, .given behind => (behind.solid.closes.lax.cons rfl).closes.cons rfl

theorem Atom.solid : ∀ {words tree}, Atom words tree → Solid tree.Plain words
  | _, _, .int => solid_token rfl
  | _, _, .float => solid_token rfl
  | _, _, .string => solid_token rfl
  | _, _, .name => solid_token rfl
  | _, _, .member => ((solid_token rfl).closes.cons rfl).closes.cons rfl
  | _, _, .paren inner => brackets_paren.solid inner.solid.closes.lax
  | _, _, .list only => only.solid
  | _, _, .dict only => only.solid
  | _, _, .branch only => only.solid
  | _, _, .forLoop only => only.solid
  | _, _, .whileLoop only => only.solid
  | _, _, .function only => only.solid

theorem ListLiteral.solid : ∀ {words tree}, ListLiteral words tree → Solid tree.Plain words
  | _, _, .empty => brackets_square.solid closes_nil
  | _, _, .items head tail => by
      rw [← List.append_assoc]
      exact brackets_square.solid (head.solid.closes.lax.append (closes_exprs tail))

theorem DictLiteral.solid : ∀ {words tree}, DictLiteral words tree → Solid tree.Plain words
  | _, _, .empty => brackets_curly.solid closes_nil
  | _, _, .entries head tail => by
      rw [← List.append_assoc]
      exact brackets_curly.solid (head.solid.closes.append (closes_entries tail))

theorem closes_entries : ∀ {words entries}, AfterCommas Entry words entries → Closes False words
  | _, _, .none => closes_nil
  | _, _, .more before behind => (closes_entries before).comma behind.solid

theorem Entry.solid : ∀ {words entry}, Entry words entry → Solid False words
  | _, _, .pair head tail => (head.solid.imp False.elim).append (tail.solid.imp False.elim).inline

theorem Branch.solid : ∀ {words tree}, Branch words tree → Solid tree.Plain words
  | _, _, .cases chain => (chain.solid rfl).imp Tree.Plain.chain

theorem Cases.solid : ∀ {word words cases otherwise}, Cases word words cases otherwise →
    (Token.keyword word).isCalm = true → Solid (Tree.PlainChain cases otherwise) words
  | _, _, _, _, .closed test inner, calm => by
      refine ((test.solid.imp ?_).closes.append (inner.closes.imp ?_).block).cons calm
      · exact fun plain => (plain.cases _ List.mem_cons_self).1
      · exact fun plain => (plain.cases _ List.mem_cons_self).2.1
  | _, _, _, _, .lines test inner further, calm => by
      refine ((test.solid.imp ?_).closes.append ((inner.closes.leftOpen.imp ?_).append
        (further.closes.imp Tree.PlainChain.tail))).cons calm
      · exact fun plain => (plain.cases _ List.mem_cons_self).1
      · exact fun plain => Bool.noConfusion (plain.cases _ List.mem_cons_self).2.2
  | _, _, _, _, .inline test inner further, calm => by
      refine ((test.solid.imp ?_).closes.append ((inner.solid.imp ?_).inline.append
        (further.closes.imp Tree.PlainChain.tail))).cons calm
      · exact fun plain => (plain.cases _ List.mem_cons_self).1
      · exact fun plain => (plain.cases _ List.mem_cons_self).2.1

theorem MoreCases.closes : ∀ {words cases otherwise}, MoreCases words cases otherwise →
    Closes (Tree.PlainChain cases otherwise) words
  | _, _, _, .cases chain => (chain.solid rfl).closes
  | _, _, _, .otherwise only => only.closes.imp Tree.PlainChain.otherwise

theorem Otherwise.closes : ∀ {words otherwise}, Otherwise words otherwise →
    Closes (∀ final ∈ otherwise, final.1.Plain ∧ final.2 = false) words
  | _, _, .none => closes_nil
  | _, _, .body inner => ((inner.closes.imp fun plain => (plain _ rfl).1).cons rfl).closes

theorem Body.closes : ∀ {words body block}, Body words body block → Closes body.Plain words
  | _, _, _, .lines inner => inner.closes.block
  | _, _, _, .inline inner => inner.solid.inline

theorem ForLoop.solid : ∀ {words tree}, ForLoop words tree → Solid tree.Plain words
  | _, _, .count head tail inner => by
      refine ((Closes.cons ((head.solid.closes.imp ?_).append ((tail.solid.closes.imp ?_).append
        (inner.closes.imp ?_) |>.cons rfl).closes) rfl).closes.cons rfl).closes.cons rfl
      · exact fun plain => plain.part List.mem_cons_self
      · exact fun plain => plain.part (List.mem_cons_of_mem _ List.mem_cons_self)
      · exact fun plain =>
          plain.part (List.mem_cons_of_mem _ (List.mem_cons_of_mem _ List.mem_cons_self))
  | _, _, .stride head tail behind inner => by
      refine ((Closes.cons ((head.solid.closes.imp ?_).append ((tail.solid.closes.imp ?_).append
        ((behind.solid.closes.imp ?_).append (inner.closes.imp ?_) |>.cons rfl).closes
          |>.cons rfl).closes) rfl).closes.cons rfl).closes.cons rfl
      · exact fun plain => plain.part List.mem_cons_self
      · exact fun plain => plain.part (List.mem_cons_of_mem _ List.mem_cons_self)
      · exact fun plain => plain.part (List.mem_cons_of_mem _
          (List.mem_cons_of_mem _ (List.mem_cons_of_mem _ List.mem_cons_self)))
      · exact fun plain =>
          plain.part (List.mem_cons_of_mem _ (List.mem_cons_of_mem _ List.mem_cons_self))
  | _, _, .each head inner => by
      refine ((Closes.cons ((head.solid.closes.imp ?_).append (inner.closes.imp ?_))
        rfl).closes.cons rfl).closes.cons rfl
      · exact fun plain => plain.part List.mem_cons_self
      · exact fun plain => plain.part (List.mem_cons_of_mem _ List.mem_cons_self)

theorem WhileLoop.solid : ∀ {words tree}, WhileLoop words tree → Solid tree.Plain words
  | _, _, .loop test inner => by
      refine ((test.solid.closes.imp ?_).append (inner.closes.imp ?_)).cons rfl
      · exact fun plain => plain.part List.mem_cons_self
      · exact fun plain => plain.part (List.mem_cons_of_mem _ List.mem_cons_self)

theorem Function.solid : ∀ {words tree}, Function words tree → Solid tree.Plain words
  | _, _, .define called names content => by
      refine ((closes_head called).append ?_).cons rfl
      rw [List.append_cons]
      exact (brackets_paren.solid names.closes).closes.append
        (content.closes.imp fun plain => plain.part List.mem_cons_self)

theorem Parameters.closes : ∀ {words parameters optional},
    Parameters words parameters optional → Closes False words
  | _, _, _, .none => closes_nil
  | _, _, _, .positional tail => ((closes_names tail).cons rfl).closes
  | _, _, _, .optional tail _ behind further =>
      (((closes_names tail).append
        ((behind.solid.closes.lax.append (closes_named further)).cons rfl).closes).cons rfl).closes

theorem FunctionBody.closes : ∀ {words body yields}, FunctionBody words body yields →
    Closes body.Plain words
  | _, _, _, .arrow inner => (inner.solid.closes.cons rfl).closes
  | _, _, _, .lines inner => by
      have line : LineEnds [.newline] := List.forall_mem_singleton.mpr rfl
      exact (brackets_curly.solid ((closes_lineEnds line).append inner.closes.lax)).closes

end

theorem Script.behind_nil {words : List Token} {tree : Bare} (script : Script words tree)
    (plain : tree.Plain) : behind [] words = [] := by
  cases script with
  | empty => rfl
  | lines inner =>
      obtain ⟨count, reached, none⟩ := inner.closes [] rfl
      rw [reached, none plain]
      rfl

end Phrase

end Lingo
