/-
Scripts whose dictionaries have distinct keys.

A dictionary may be written with the same key many times.  The reader keeps each key once, at
the place where it comes first and with the value that comes last, so no phrase writes a tree that
has a dictionary with two equal keys, however deep inside, and no such tree is read.
-/

import Mathlib.Data.List.Induction
import Lingo.Proofs.Eval.Faults
import Lingo.Proofs.Grammar.Expression
import Lingo.Proofs.Grammar.Success

namespace Lingo

/-! ### Tidy trees -/

namespace Tree

variable {σ : Type} {tree : Tree σ}

def keysDiffer : Tree σ → Prop
  | dict _ entries => (entries.map (·.1.2)).Nodup
  | _ => True

/-- All dictionaries in a tree have distinct keys. -/
def Tidy (tree : Tree σ) : Prop :=
  tree.Everywhere keysDiffer

theorem Tidy.here (tidy : tree.Tidy) : tree.keysDiffer := by
  cases tidy with
  | intro here inside => exact here

theorem Tidy.inside (tidy : tree.Tidy) : ∀ part ∈ tree.parts, part.Tidy := by
  cases tidy with
  | intro here inside => exact inside

def TidyCases (chain : List (Tree σ × Tree σ × Bool) × Option (Tree σ × Bool)) : Prop :=
  (∀ case ∈ chain.1, case.1.Tidy ∧ case.2.1.Tidy) ∧ ∀ final ∈ chain.2, final.1.Tidy

def TidyNamed (named : List (String × Tree σ)) : Prop :=
  ∀ pair ∈ named, pair.2.Tidy

theorem tidy_some (tidy : tree.Tidy) : ∀ found ∈ some tree, found.Tidy :=
  fun _ same => Option.some.inj same ▸ tidy

theorem tidy_pair {left right : Tree σ} (tidyLeft : left.Tidy) (tidyRight : right.Tidy) :
    ∀ part ∈ [left, right], part.Tidy :=
  List.forall_mem_cons.mpr ⟨tidyLeft, List.forall_mem_singleton.mpr tidyRight⟩

theorem tidyCases_cons {condition body : Tree σ} (block : Bool)
    {chain : List (Tree σ × Tree σ × Bool) × Option (Tree σ × Bool)}
    (tidyCondition : condition.Tidy) (tidyBody : body.Tidy) (tidyChain : TidyCases chain) :
    TidyCases ((condition, body, block) :: chain.1, chain.2) :=
  ⟨List.forall_mem_cons.mpr ⟨⟨tidyCondition, tidyBody⟩, tidyChain.1⟩, tidyChain.2⟩

theorem tidy_branch (place : σ) {chain : List (Tree σ × Tree σ × Bool) × Option (Tree σ × Bool)}
    (tidy : TidyCases chain) : (branch place chain.1 chain.2).Tidy := by
  refine .intro trivial fun part among => ?_
  rcases List.mem_append.mp among with inCases | inOtherwise
  · obtain ⟨case, known, inCase⟩ := List.mem_flatMap.mp inCases
    exact tidy_pair (tidy.1 case known).1 (tidy.1 case known).2 part inCase
  · obtain ⟨final, known, rfl⟩ := List.mem_map.mp inOtherwise
    exact tidy.2 final (Option.mem_toList.mp known)

theorem Tidy.cases {place : σ} {cases : List (Tree σ × Tree σ × Bool)}
    {otherwise : Option (Tree σ × Bool)} (tidy : (branch place cases otherwise).Tidy) :
    TidyCases (cases, otherwise) := by
  obtain ⟨inCases, inOtherwise⟩ := List.forall_mem_append.mp tidy.inside
  constructor
  · intro case among
    have both : ∀ tree ∈ [case.1, case.2.1], tree.Tidy :=
      fun tree inCase => inCases tree (List.mem_flatMap.mpr ⟨case, among, inCase⟩)
    exact ⟨both _ (List.mem_cons_self ..), both _ (List.mem_cons_of_mem _ (List.mem_cons_self ..))⟩
  · intro final among
    exact inOtherwise final.1 (List.mem_map_of_mem (Option.mem_toList.mpr among))

theorem tidy_count (place : σ) (name : String) {first limit : Tree σ} {step : Option (Tree σ)}
    {body : Tree σ} (block : Bool) (tidyFirst : first.Tidy) (tidyLimit : limit.Tidy)
    (tidyStep : ∀ tree ∈ step, tree.Tidy) (tidyBody : body.Tidy) :
    (count place name first limit step body block).Tidy := by
  have tidy : ∀ part ∈ first :: limit :: body :: step.toList, part.Tidy :=
    List.forall_mem_cons.mpr ⟨tidyFirst, List.forall_mem_cons.mpr ⟨tidyLimit,
      List.forall_mem_cons.mpr ⟨tidyBody, fun tree among =>
        tidyStep tree (Option.mem_toList.mp among)⟩⟩⟩
  exact .intro trivial tidy

theorem parts_bare (tree : Tree σ) : tree.bare.parts = tree.parts.map bare := by
  have cases_eq : ∀ cases : List (Tree σ × Tree σ × Bool),
      (bareCases cases).flatMap (fun case => [case.1, case.2.1]) =
        (cases.flatMap fun case => [case.1, case.2.1]).map bare := by
    intro cases
    induction cases with
    | nil => rfl
    | cons case rest ih => simp [bareCases, ih]
  cases tree with
  | branch _ cases otherwise =>
      cases otherwise <;> simp [bare, parts, cases_eq, bareOtherwise]
  | count _ _ _ _ step => cases step <;> rfl
  | giveBack _ value => cases value <;> rfl
  | _ => simp [bare, parts, bareAll_eq_map, bareEntries_eq_map, bareNamed_eq_map]

theorem Tidy.of_bare (tidy : tree.bare.Tidy) : tree.Tidy := by
  generalize same : tree.bare = other at tidy
  induction tidy generalizing tree with
  | intro here inside ih =>
      subst same
      refine .intro ?_ fun part among => ih _ ?_ rfl
      · cases tree with
        | dict place entries =>
            simpa [bare, keysDiffer, bareEntries_eq_map, Function.comp_def] using here
        | _ => trivial
      · rw [parts_bare]
        exact List.mem_map_of_mem among

end Tree

/-! ### What phrases write -/

namespace Phrase

theorem tidy_keepLast {entries : List (String × Bare)} (tidy : ∀ entry ∈ entries, entry.2.Tidy) :
    ((keepLast entries).map (·.1.2)).Nodup ∧ ∀ entry ∈ keepLast entries, entry.2.Tidy := by
  induction entries using List.reverseRecOn with
  | nil => exact ⟨List.nodup_nil, List.forall_mem_nil _⟩
  | append_singleton entries entry ih =>
      obtain ⟨key, value⟩ := entry
      obtain ⟨earlier, final⟩ := List.forall_mem_append.mp tidy
      obtain ⟨distinct, kept⟩ := ih earlier
      have tidyValue : value.Tidy := final _ List.mem_cons_self
      rw [keepLast_append]
      split
      · constructor
        · have same : (Prod.snd ∘ Prod.fst) ∘ (fun known : (Unit × String) × Bare =>
              if known.1.2 = key then (known.1, value) else known) = Prod.snd ∘ Prod.fst := by
            funext known
            dsimp only [Function.comp]
            split <;> rfl
          rw [List.map_map]
          exact same ▸ distinct
        · refine List.forall_mem_map.mpr fun known among => ?_
          split
          · exact tidyValue
          · exact kept known among
      · rename_i absent
        refine ⟨?_, List.forall_mem_append.mpr ⟨kept, List.forall_mem_singleton.mpr tidyValue⟩⟩
        rw [List.map_append, List.map_singleton]
        refine List.nodup_append.mpr ⟨distinct, List.pairwise_singleton _ _, ?_⟩
        intro known member other last same
        obtain ⟨entry, among, rfl⟩ := List.mem_map.mp member
        exact absent ((keepLast_keys entries key).mp
          ⟨entry, among, same.trans (List.mem_singleton.mp last)⟩)

mutual

theorem Statements.tidy : ∀ {words tree}, Statements words tree → tree.Tidy
  | _, _, .lines _ head tail _ =>
      .intro trivial (List.forall_mem_cons.mpr ⟨head.tidy, tail.tidy⟩)

theorem MoreStatements.tidy : ∀ {words trees}, MoreStatements words trees →
    ∀ tree ∈ trees, tree.Tidy
  | _, _, .none => List.forall_mem_nil _
  | _, _, .more before _ _ behind =>
      List.forall_mem_append.mpr ⟨before.tidy, List.forall_mem_singleton.mpr behind.tidy⟩

theorem Statement.tidy : ∀ {words tree}, Statement words tree → tree.Tidy
  | _, _, .giveBack => .intro trivial (List.forall_mem_nil _)
  | _, _, .giveBackValue given => .intro trivial (List.forall_mem_singleton.mpr given.tidy)
  | _, _, .skip => .intro trivial (List.forall_mem_nil _)
  | _, _, .leave => .intro trivial (List.forall_mem_nil _)
  | _, _, .expr only => only.tidy

theorem Expr.tidy : ∀ {words tree}, Expr words tree → tree.Tidy
  | _, _, .assign given => .intro trivial (List.forall_mem_singleton.mpr given.tidy)
  | _, _, .logic chain => tidy_comparisons chain

theorem tidy_comparisons : ∀ {words tree},
    Chain [.both, .either] Comparison Comparison words tree → tree.Tidy
  | _, _, .one only => only.tidy
  | _, _, .more before _ behind =>
      .intro trivial (Tree.tidy_pair (tidy_comparisons before) behind.tidy)

theorem Comparison.tidy : ∀ {words tree}, Comparison words tree → tree.Tidy
  | _, _, .negation inner => .intro trivial (List.forall_mem_singleton.mpr inner.tidy)
  | _, _, .order chain => tidy_sums chain

theorem tidy_sums : ∀ {words tree},
    Chain [.eq, .ne, .lt, .gt, .le, .ge] Sum Sum words tree → tree.Tidy
  | _, _, .one only => only.tidy
  | _, _, .more before _ behind => .intro trivial (Tree.tidy_pair (tidy_sums before) behind.tidy)

theorem Sum.tidy : ∀ {words tree}, Sum words tree → tree.Tidy
  | _, _, .terms chain => tidy_products chain

theorem tidy_products : ∀ {words tree}, Chain [.add, .sub] Product Product words tree → tree.Tidy
  | _, _, .one only => only.tidy
  | _, _, .more before _ behind =>
      .intro trivial (Tree.tidy_pair (tidy_products before) behind.tidy)

theorem Product.tidy : ∀ {words tree}, Product words tree → tree.Tidy
  | _, _, .factors chain => tidy_factors chain

theorem tidy_factors : ∀ {words tree},
    Chain [.mul, .div, .floorDiv, .mod] Factor Factor words tree → tree.Tidy
  | _, _, .one only => only.tidy
  | _, _, .more before _ behind => .intro trivial (Tree.tidy_pair (tidy_factors before) behind.tidy)

theorem Factor.tidy : ∀ {words tree}, Factor words tree → tree.Tidy
  | _, _, .sign _ inner => .intro trivial (List.forall_mem_singleton.mpr inner.tidy)
  | _, _, .power only => only.tidy

theorem Power.tidy : ∀ {words tree}, Power words tree → tree.Tidy
  | _, _, .calls chain => tidy_calls chain

theorem tidy_calls : ∀ {words tree}, Chain [.pow] Call Factor words tree → tree.Tidy
  | _, _, .one only => only.tidy
  | _, _, .more before _ behind => .intro trivial (Tree.tidy_pair (tidy_calls before) behind.tidy)

theorem Call.tidy : ∀ {words tree}, Call words tree → tree.Tidy
  | _, _, .atom only => only.tidy
  | _, _, .call head given => .intro trivial (List.forall_mem_cons.mpr ⟨head.tidy,
      List.forall_mem_append.mpr ⟨given.tidy.1, List.forall_mem_map.mpr given.tidy.2⟩⟩)

theorem Arguments.tidy : ∀ {words positional optional}, Arguments words positional optional →
    (∀ tree ∈ positional, tree.Tidy) ∧ Tree.TidyNamed optional
  | _, _, _, .none => ⟨List.forall_mem_nil _, List.forall_mem_nil _⟩
  | _, _, _, .positional head tail =>
      ⟨List.forall_mem_cons.mpr ⟨head.tidy, tidy_exprs tail⟩, List.forall_mem_nil _⟩
  | _, _, _, .optional head tail last behind further => by
      have all := List.forall_mem_cons.mpr ⟨head.tidy, tidy_exprs tail⟩
      rw [last] at all
      exact ⟨(List.forall_mem_append.mp all).1,
        List.forall_mem_cons.mpr ⟨behind.tidy, tidy_named further⟩⟩

theorem tidy_exprs : ∀ {words trees}, AfterCommas Expr words trees → ∀ tree ∈ trees, tree.Tidy
  | _, _, .none => List.forall_mem_nil _
  | _, _, .more before behind =>
      List.forall_mem_append.mpr ⟨tidy_exprs before, List.forall_mem_singleton.mpr behind.tidy⟩

theorem tidy_named : ∀ {words named}, AfterCommas Named words named → Tree.TidyNamed named
  | _, _, .none => List.forall_mem_nil _
  | _, _, .more before behind =>
      List.forall_mem_append.mpr ⟨tidy_named before, List.forall_mem_singleton.mpr behind.tidy⟩

theorem Named.tidy : ∀ {words named}, Named words named → named.2.Tidy
  | _, _, .given behind => behind.tidy

theorem Atom.tidy : ∀ {words tree}, Atom words tree → tree.Tidy
  | _, _, .int => .intro trivial (List.forall_mem_nil _)
  | _, _, .float => .intro trivial (List.forall_mem_nil _)
  | _, _, .string => .intro trivial (List.forall_mem_nil _)
  | _, _, .name => .intro trivial (List.forall_mem_nil _)
  | _, _, .member => .intro trivial (List.forall_mem_nil _)
  | _, _, .paren inner => inner.tidy
  | _, _, .list only => only.tidy
  | _, _, .dict only => only.tidy
  | _, _, .branch only => only.tidy
  | _, _, .forLoop only => only.tidy
  | _, _, .whileLoop only => only.tidy
  | _, _, .function only => only.tidy

theorem ListLiteral.tidy : ∀ {words tree}, ListLiteral words tree → tree.Tidy
  | _, _, .empty => .intro trivial (List.forall_mem_nil _)
  | _, _, .items head tail =>
      .intro trivial (List.forall_mem_cons.mpr ⟨head.tidy, tidy_exprs tail⟩)

theorem DictLiteral.tidy : ∀ {words tree}, DictLiteral words tree → tree.Tidy
  | _, _, .empty => .intro List.nodup_nil (List.forall_mem_nil _)
  | _, _, .entries head tail => by
      obtain ⟨distinct, kept⟩ :=
        tidy_keepLast (List.forall_mem_cons.mpr ⟨head.tidy, tidy_entries tail⟩)
      exact .intro distinct (List.forall_mem_map.mpr kept)

theorem tidy_entries : ∀ {words entries}, AfterCommas Entry words entries →
    ∀ entry ∈ entries, entry.2.Tidy
  | _, _, .none => List.forall_mem_nil _
  | _, _, .more before behind =>
      List.forall_mem_append.mpr ⟨tidy_entries before, List.forall_mem_singleton.mpr behind.tidy⟩

theorem Entry.tidy : ∀ {words entry}, Entry words entry → entry.2.Tidy
  | _, _, .pair _ tail => tail.tidy

theorem Branch.tidy : ∀ {words tree}, Branch words tree → tree.Tidy
  | _, _, .cases chain => Tree.tidy_branch () chain.tidy

theorem Cases.tidy : ∀ {word words cases otherwise}, Cases word words cases otherwise →
    Tree.TidyCases (cases, otherwise)
  | _, _, _, _, .closed test inner =>
      ⟨List.forall_mem_singleton.mpr ⟨test.tidy, inner.tidy⟩, fun _ none => by cases none⟩
  | _, _, _, _, .lines test inner further =>
      Tree.tidyCases_cons true test.tidy inner.tidy further.tidy
  | _, _, _, _, .inline test inner further =>
      Tree.tidyCases_cons false test.tidy inner.tidy further.tidy

theorem MoreCases.tidy : ∀ {words cases otherwise}, MoreCases words cases otherwise →
    Tree.TidyCases (cases, otherwise)
  | _, _, _, .cases chain => chain.tidy
  | _, _, _, .otherwise only => ⟨List.forall_mem_nil _, only.tidy⟩

theorem Otherwise.tidy : ∀ {words otherwise}, Otherwise words otherwise →
    ∀ final ∈ otherwise, final.1.Tidy
  | _, _, .none => fun _ none => by cases none
  | _, _, .body inner => fun _ same => Option.some.inj same ▸ inner.tidy

theorem Body.tidy : ∀ {words body block}, Body words body block → body.Tidy
  | _, _, _, .lines inner => inner.tidy
  | _, _, _, .inline inner => inner.tidy

theorem ForLoop.tidy : ∀ {words tree}, ForLoop words tree → tree.Tidy
  | _, _, .count head tail inner =>
      Tree.tidy_count () _ _ head.tidy tail.tidy (fun _ none => by cases none) inner.tidy
  | _, _, .stride head tail behind inner =>
      Tree.tidy_count () _ _ head.tidy tail.tidy (Tree.tidy_some behind.tidy) inner.tidy
  | _, _, .each head inner => .intro trivial (Tree.tidy_pair head.tidy inner.tidy)

theorem WhileLoop.tidy : ∀ {words tree}, WhileLoop words tree → tree.Tidy
  | _, _, .loop test inner => .intro trivial (Tree.tidy_pair test.tidy inner.tidy)

theorem Function.tidy : ∀ {words tree}, Function words tree → tree.Tidy
  | _, _, .define _ names content =>
      .intro trivial (List.forall_mem_cons.mpr ⟨content.tidy, List.forall_mem_map.mpr names.tidy⟩)

theorem Parameters.tidy : ∀ {words parameters optional}, Parameters words parameters optional →
    Tree.TidyNamed optional
  | _, _, _, .none => List.forall_mem_nil _
  | _, _, _, .positional _ => List.forall_mem_nil _
  | _, _, _, .optional _ _ behind further =>
      List.forall_mem_cons.mpr ⟨behind.tidy, tidy_named further⟩

theorem FunctionBody.tidy : ∀ {words body yields}, FunctionBody words body yields → body.Tidy
  | _, _, _, .arrow inner => inner.tidy
  | _, _, _, .lines inner => inner.tidy

end

theorem Script.tidy {words : List Token} {tree : Bare} (script : Script words tree) :
    tree.Tidy := by
  cases script with
  | empty => exact .intro trivial (List.forall_mem_nil _)
  | lines inner => exact inner.tidy

end Phrase

/-! ### What is read -/

namespace Grammar

open Rule

theorem tokenAt_mem {tokens : List Placed} (some : tokens ≠ []) (index : Nat) :
    tokenAt tokens.toArray index ∈ tokens := by
  have inside : min index (tokens.length - 1) < tokens.length := by
    have positive := List.length_pos_iff.mpr some
    omega
  have found : tokenAt tokens.toArray index = tokens[min index (tokens.length - 1)] := by
    simp [tokenAt, inside]
  rw [found]
  exact List.getElem_mem inside

variable {tokens : List Placed} {tree : Script} {after : Reading}
  (accepted : run script tokens = .ok (.success tree, after))

include accepted

theorem eof_mem_of_run : Token.eof ∈ tokens.map Placed.token := by
  have seen : ∃ index, (tokenAt tokens.toArray index).token.isEof = true := by
    change (if _ then _ else _ : Rule Script) _ _ = _ at accepted
    split at accepted
    · exact ⟨0, (by assumption : _ ∧ _).2⟩
    · obtain ⟨_, middle, _, ended⟩ := of_bind_success accepted
      change (if _ then _ else _ : Rule Script) _ _ = _ at ended
      split at ended
      · exact ⟨middle.cursor, by assumption⟩
      · cases ended
  obtain ⟨index, mark⟩ := seen
  have some : tokens ≠ [] := by
    rintro rfl
    cases mark
  rw [← isEof_iff.mp mark]
  exact List.mem_map_of_mem (tokenAt_mem some index)

theorem tidy_of_run : tree.Tidy := by
  obtain ⟨words, rest, written, first⟩ := List.eq_append_cons_of_mem (eof_mem_of_run accepted)
  have phrase := ((keeps_script (endsAt_of_map written first) _).reached accepted).2.2
  exact phrase.2.tidy.of_bare

end Grammar

end Lingo
