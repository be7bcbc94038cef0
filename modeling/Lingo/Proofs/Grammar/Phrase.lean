/-
The written form of scripts, as a grammar.

A phrase is a sequence of tokens together with what it writes: a tree without places, or
a part of one.  The phrases are given by derivation rules that mention neither a cursor
nor counts nor an order in which alternatives are tried.
-/

import Mathlib.Data.List.Basic
import Lingo.Syntax.Outline

namespace Lingo

abbrev Bare := Tree Unit

namespace Tree

variable {σ : Type}

mutual

def bare : Tree σ → Bare
  | number _ value => .number () value
  | string _ text => .string () text
  | list _ items => .list () (bareAll items)
  | dict _ entries => .dict () (bareEntries entries)
  | access _ name owner => .access () name owner
  | assign _ name value => .assign () name value.bare
  | binary _ op left right => .binary () op left.bare right.bare
  | unary _ op operand => .unary () op operand.bare
  | branch _ cases otherwise => .branch () (bareCases cases) (bareOtherwise otherwise)
  | count _ name first limit step body block =>
      .count () name first.bare limit.bare (bareOption step) body.bare block
  | each _ name collection body block => .each () name collection.bare body.bare block
  | loop _ condition body block => .loop () condition.bare body.bare block
  | function _ name parameters optional body yields =>
      .function () name parameters (bareNamed optional) body.bare yields
  | call _ callee arguments optional =>
      .call () callee.bare (bareAll arguments) (bareNamed optional)
  | giveBack _ value => .giveBack () (bareOption value)
  | skip _ => .skip ()
  | leave _ => .leave ()

def bareAll : List (Tree σ) → List Bare
  | [] => []
  | tree :: rest => tree.bare :: bareAll rest

def bareOption : Option (Tree σ) → Option Bare
  | none => none
  | some tree => some tree.bare

def bareNamed : List (String × Tree σ) → List (String × Bare)
  | [] => []
  | (name, tree) :: rest => (name, tree.bare) :: bareNamed rest

def bareEntries : List ((σ × String) × Tree σ) → List ((Unit × String) × Bare)
  | [] => []
  | ((_, key), tree) :: rest => (((), key), tree.bare) :: bareEntries rest

def bareCases : List (Tree σ × Tree σ × Bool) → List (Bare × Bare × Bool)
  | [] => []
  | (condition, body, block) :: rest => (condition.bare, body.bare, block) :: bareCases rest

def bareOtherwise : Option (Tree σ × Bool) → Option (Bare × Bool)
  | none => none
  | some (body, block) => some (body.bare, block)

end

theorem bareAll_eq_map (trees : List (Tree σ)) : bareAll trees = trees.map bare := by
  induction trees with
  | nil => rfl
  | cons tree rest ih => simp only [bareAll, List.map_cons, ih]

theorem bareNamed_eq_map (named : List (String × Tree σ)) :
    bareNamed named = named.map fun item => (item.1, item.2.bare) := by
  induction named with
  | nil => rfl
  | cons item rest ih => simp only [bareNamed, List.map_cons, ih]

theorem bareEntries_eq_map (entries : List ((σ × String) × Tree σ)) :
    bareEntries entries = entries.map fun entry => (((), entry.1.2), entry.2.bare) := by
  induction entries with
  | nil => rfl
  | cons entry rest ih => simp only [bareEntries, List.map_cons, ih]

end Tree

namespace Phrase

/-! ### Repetition -/

def LineEnds (words : List Token) : Prop :=
  ∀ word ∈ words, word = .newline

def Name (words : List Token) (name : String) : Prop :=
  words = [.identifier name]

/-- Operands joined from the left by some of the operators. -/
inductive Chain (ops : List BinaryOp) (first right : List Token → Bare → Prop) :
    List Token → Bare → Prop where
  | one {words : List Token} {tree : Bare} (only : first words tree) :
      Chain ops first right words tree
  | more {words others : List Token} {left operand : Bare} {op : BinaryOp}
      (before : Chain ops first right words left) (known : op ∈ ops)
      (behind : right others operand) :
      Chain ops first right (words ++ op.token :: others) (.binary () op left operand)

inductive AfterCommas {α : Type} (item : List Token → α → Prop) :
    List Token → List α → Prop where
  | none : AfterCommas item [] []
  | more {words others : List Token} {items : List α} {next : α}
      (before : AfterCommas item words items) (behind : item others next) :
      AfterCommas item (words ++ .symbol .comma :: others) (items ++ [next])

/-- The entries that a dictionary keeps: each key once, at its first place, with its last
value. -/
def keepLast (entries : List (String × Bare)) : List ((Unit × String) × Bare) :=
  (entries.map Prod.fst).eraseDups.filterMap fun key =>
    (entries.reverse.lookup key).map fun value => (((), key), value)

theorem keepLast_single (entry : String × Bare) :
    keepLast [entry] = [(((), entry.1), entry.2)] := by
  obtain ⟨key, value⟩ := entry
  simp [keepLast, List.eraseDups_cons]

theorem exists_last_of_mem {entries : List (String × Bare)} {key : String}
    (known : key ∈ entries.map Prod.fst) : ∃ value, entries.reverse.lookup key = some value := by
  obtain ⟨entry, member, named⟩ := List.mem_map.mp known
  apply Option.isSome_iff_exists.mp
  exact List.lookup_isSome_iff.mpr ⟨entry, List.mem_reverse.mpr member, by simp [named]⟩

/-- One more written entry gives a key that is there its value; a new key is added behind
the others. -/
theorem keepLast_append (entries : List (String × Bare)) (key : String) (value : Bare) :
    keepLast (entries ++ [(key, value)]) =
      if key ∈ entries.map Prod.fst then
        (keepLast entries).map fun known =>
          if known.1.2 = key then (known.1, value) else known
      else keepLast entries ++ [(((), key), value)] := by
  -- Values are looked up from the end, where the new entry comes first.
  have looked : ∀ other, (entries ++ [(key, value)]).reverse.lookup other =
      if other = key then some value else entries.reverse.lookup other := by
    intro other
    rw [List.reverse_append, List.reverse_singleton, List.singleton_append, List.lookup_cons]
    by_cases same : other = key
    · simp [same]
    · have apart : (other == key) = false := by simpa using same
      rw [apart, if_neg same]
  unfold keepLast
  rw [List.map_append, List.eraseDups_append]
  by_cases known : key ∈ entries.map Prod.fst
  · have nothing : ([(key, value)].map Prod.fst).removeAll (entries.map Prod.fst) = [] := by
      simpa [List.removeAll] using known
    rw [if_pos known, nothing, List.eraseDups_nil, List.append_nil, List.map_filterMap]
    apply List.filterMap_congr
    intro other _
    rw [looked]
    by_cases same : other = key
    · obtain ⟨old, held⟩ := exists_last_of_mem known
      simp [same, held]
    · rw [if_neg same]
      cases held : entries.reverse.lookup other with
      | none => rfl
      | some old => simp [same]
  · have only : ([(key, value)].map Prod.fst).removeAll (entries.map Prod.fst) = [key] := by
      simpa [List.removeAll] using known
    rw [if_neg known, only, List.filterMap_append]
    congr 1
    · apply List.filterMap_congr
      intro other member
      have different : other ≠ key := fun same =>
        known (same ▸ List.mem_eraseDups.mp member)
      rw [looked, if_neg different]
    · simp [List.eraseDups_cons]

theorem keepLast_keys (entries : List (String × Bare)) (key : String) :
    (∃ known ∈ keepLast entries, known.1.2 = key) ↔ key ∈ entries.map Prod.fst := by
  unfold keepLast
  constructor
  · intro held
    obtain ⟨known, member, rfl⟩ := held
    obtain ⟨other, inside, made⟩ := List.mem_filterMap.mp member
    obtain ⟨value, _, rfl⟩ := Option.map_eq_some_iff.mp made
    exact List.mem_eraseDups.mp inside
  · intro inside
    obtain ⟨value, held⟩ := exists_last_of_mem inside
    refine ⟨(((), key), value),
      List.mem_filterMap.mpr ⟨key, List.mem_eraseDups.mpr inside, ?_⟩, rfl⟩
    rw [held]
    rfl

/-! ### The grammar -/

mutual

/-- Statements on lines of their own, with line ends around them. -/
inductive Statements : List Token → Bare → Prop where
  | lines {before first rest after : List Token} {tree : Bare} {trees : List Bare}
      (opening : LineEnds before) (head : Statement first tree)
      (tail : MoreStatements rest trees) (closing : LineEnds after) :
      Statements (before ++ (first ++ (rest ++ after))) (.list () (tree :: trees))

inductive MoreStatements : List Token → List Bare → Prop where
  | none : MoreStatements [] []
  | more {words lines next : List Token} {trees : List Bare} {tree : Bare}
      (before : MoreStatements words trees) (ends : LineEnds lines) (some : lines ≠ [])
      (behind : Statement next tree) :
      MoreStatements (words ++ (lines ++ next)) (trees ++ [tree])

inductive Statement : List Token → Bare → Prop where
  | giveBack : Statement [.keyword .returnWord] (.giveBack () .none)
  | giveBackValue {words : List Token} {value : Bare} (given : Expr words value) :
      Statement (.keyword .returnWord :: words) (.giveBack () (some value))
  | skip : Statement [.keyword .continueWord] (.skip ())
  | leave : Statement [.keyword .breakWord] (.leave ())
  | expr {words : List Token} {tree : Bare} (only : Expr words tree) : Statement words tree

inductive Expr : List Token → Bare → Prop where
  | assign {name : String} {words : List Token} {value : Bare} (given : Expr words value) :
      Expr (.keyword .varWord :: .identifier name :: .symbol .assign :: words)
        (.assign () name value)
  | logic {words : List Token} {tree : Bare}
      (chain : Chain [.both, .either] Comparison Comparison words tree) : Expr words tree

inductive Comparison : List Token → Bare → Prop where
  | negation {words : List Token} {operand : Bare} (inner : Comparison words operand) :
      Comparison (.keyword .notWord :: words) (.unary () .negation operand)
  | order {words : List Token} {tree : Bare}
      (chain : Chain [.eq, .ne, .lt, .gt, .le, .ge] Sum Sum words tree) : Comparison words tree

inductive Sum : List Token → Bare → Prop where
  | terms {words : List Token} {tree : Bare}
      (chain : Chain [.add, .sub] Product Product words tree) : Sum words tree

inductive Product : List Token → Bare → Prop where
  | factors {words : List Token} {tree : Bare}
      (chain : Chain [.mul, .div, .floorDiv, .mod] Factor Factor words tree) : Product words tree

inductive Factor : List Token → Bare → Prop where
  | sign {op : UnaryOp} {words : List Token} {operand : Bare} (known : op ∈ [.plus, .minus])
      (inner : Factor words operand) : Factor (op.token :: words) (.unary () op operand)
  | power {words : List Token} {tree : Bare} (only : Power words tree) : Factor words tree

inductive Power : List Token → Bare → Prop where
  | calls {words : List Token} {tree : Bare} (chain : Chain [.pow] Call Factor words tree) :
      Power words tree

inductive Call : List Token → Bare → Prop where
  | atom {words : List Token} {tree : Bare} (only : Atom words tree) : Call words tree
  | call {words inner : List Token} {callee : Bare} {positional : List Bare}
      {optional : List (String × Bare)} (head : Atom words callee)
      (given : Arguments inner positional optional) :
      Call (words ++ .symbol .leftParen :: (inner ++ [.symbol .rightParen]))
        (.call () callee positional optional)

/-- Expressions between commas; behind the last one, if it is a name, an equals sign may
give it a value, and then more names with values follow. -/
inductive Arguments : List Token → List Bare → List (String × Bare) → Prop where
  | none : Arguments [] [] []
  | positional {words rest : List Token} {first : Bare} {others : List Bare}
      (head : Expr words first) (tail : AfterCommas Expr rest others) :
      Arguments (words ++ rest) (first :: others) []
  | optional {words rest given more : List Token} {first value : Bare} {others before : List Bare}
      {name : String} {owner : Option String} {named : List (String × Bare)}
      (head : Expr words first) (tail : AfterCommas Expr rest others)
      (last : first :: others = before ++ [.access () name owner])
      (behind : Expr given value) (further : AfterCommas Named more named) :
      Arguments (words ++ (rest ++ .symbol .assign :: (given ++ more))) before
        ((name, value) :: named)

inductive Named : List Token → String × Bare → Prop where
  | given {name : String} {words : List Token} {value : Bare} (behind : Atom words value) :
      Named (.identifier name :: .symbol .assign :: words) (name, value)

inductive Atom : List Token → Bare → Prop where
  | int {n : Nat} : Atom [.int n] (.number () (.int n))
  | float {x : Float} : Atom [.float x] (.number () (.float x))
  | string {text : String} : Atom [.string text] (.string () text)
  | name {name : String} : Atom [.identifier name] (.access () name .none)
  | member {owner name : String} :
      Atom [.identifier owner, .symbol .dot, .identifier name] (.access () name (some owner))
  | paren {words : List Token} {tree : Bare} (inner : Expr words tree) :
      Atom (.symbol .leftParen :: (words ++ [.symbol .rightParen])) tree
  | list {words : List Token} {tree : Bare} (only : ListLiteral words tree) : Atom words tree
  | dict {words : List Token} {tree : Bare} (only : DictLiteral words tree) : Atom words tree
  | branch {words : List Token} {tree : Bare} (only : Branch words tree) : Atom words tree
  | forLoop {words : List Token} {tree : Bare} (only : ForLoop words tree) : Atom words tree
  | whileLoop {words : List Token} {tree : Bare} (only : WhileLoop words tree) : Atom words tree
  | function {words : List Token} {tree : Bare} (only : Function words tree) : Atom words tree

inductive ListLiteral : List Token → Bare → Prop where
  | empty : ListLiteral [.symbol .leftSquare, .symbol .rightSquare] (.list () [])
  | items {first rest : List Token} {tree : Bare} {trees : List Bare} (head : Expr first tree)
      (tail : AfterCommas Expr rest trees) :
      ListLiteral (.symbol .leftSquare :: (first ++ (rest ++ [.symbol .rightSquare])))
        (.list () (tree :: trees))

inductive DictLiteral : List Token → Bare → Prop where
  | empty : DictLiteral [.symbol .leftCurly, .symbol .rightCurly] (.dict () [])
  | entries {first rest : List Token} {entry : String × Bare} {entries : List (String × Bare)}
      (head : Entry first entry) (tail : AfterCommas Entry rest entries) :
      DictLiteral (.symbol .leftCurly :: (first ++ (rest ++ [.symbol .rightCurly])))
        (.dict () (keepLast (entry :: entries)))

/-- A key is an expression that writes a string. -/
inductive Entry : List Token → String × Bare → Prop where
  | pair {first rest : List Token} {key : String} {value : Bare}
      (head : Expr first (.string () key)) (tail : Expr rest value) :
      Entry (first ++ .symbol .colon :: rest) (key, value)

inductive Branch : List Token → Bare → Prop where
  | cases {words : List Token} {cases : List (Bare × Bare × Bool)}
      {otherwise : Option (Bare × Bool)} (chain : Cases .ifWord words cases otherwise) :
      Branch words (.branch () cases otherwise)

/-- A keyword, a condition, a body on lines of its own or not, and the cases that follow; a
body on lines of its own may be the last one and closed. -/
inductive Cases : Keyword → List Token → List (Bare × Bare × Bool) → Option (Bare × Bool) →
    Prop where
  | closed {word : Keyword} {first lines : List Token} {condition body : Bare}
      (test : Expr first condition) (inner : Statements lines body) :
      Cases word
        (.keyword word :: (first ++ .symbol .colon :: .newline :: (lines ++ [.keyword .endWord])))
        [(condition, body, true)] .none
  | lines {word : Keyword} {first lines rest : List Token} {condition body : Bare}
      {more : List (Bare × Bare × Bool)} {other : Option (Bare × Bool)}
      (test : Expr first condition) (inner : Statements lines body)
      (further : MoreCases rest more other) :
      Cases word (.keyword word :: (first ++ .symbol .colon :: .newline :: (lines ++ rest)))
        ((condition, body, true) :: more) other
  | inline {word : Keyword} {first line rest : List Token} {condition body : Bare}
      {more : List (Bare × Bare × Bool)} {other : Option (Bare × Bool)}
      (test : Expr first condition) (inner : Statement line body)
      (further : MoreCases rest more other) :
      Cases word (.keyword word :: (first ++ .symbol .colon :: (line ++ rest)))
        ((condition, body, false) :: more) other

/-- Further cases, or the case that holds otherwise, or nothing. -/
inductive MoreCases : List Token → List (Bare × Bare × Bool) → Option (Bare × Bool) →
    Prop where
  | cases {words : List Token} {more : List (Bare × Bare × Bool)} {other : Option (Bare × Bool)}
      (chain : Cases .elifWord words more other) : MoreCases words more other
  | otherwise {words : List Token} {other : Option (Bare × Bool)} (only : Otherwise words other) :
      MoreCases words [] other

inductive Otherwise : List Token → Option (Bare × Bool) → Prop where
  | none : Otherwise [] .none
  | body {words : List Token} {body : Bare} {block : Bool} (inner : Body words body block) :
      Otherwise (.keyword .elseWord :: words) (some (body, block))

/-- A colon, and behind it statements on lines of their own up to `end`, or one statement. -/
inductive Body : List Token → Bare → Bool → Prop where
  | lines {words : List Token} {body : Bare} (inner : Statements words body) :
      Body (.symbol .colon :: .newline :: (words ++ [.keyword .endWord])) body true
  | inline {words : List Token} {body : Bare} (inner : Statement words body) :
      Body (.symbol .colon :: words) body false

/-- A loop over numbers, or over the elements of a collection; the latter has its body on
lines of its own. -/
inductive ForLoop : List Token → Bare → Prop where
  | count {name : String} {start stop line : List Token} {first limit body : Bare} {block : Bool}
      (head : Expr start first) (tail : Expr stop limit) (inner : Body line body block) :
      ForLoop
        (.keyword .forWord :: .identifier name :: .symbol .assign ::
          (start ++ .keyword .toWord :: (stop ++ line)))
        (.count () name first limit .none body block)
  | stride {name : String} {start stop by_ line : List Token} {first limit step body : Bare}
      {block : Bool} (head : Expr start first) (tail : Expr stop limit) (behind : Expr by_ step)
      (inner : Body line body block) :
      ForLoop
        (.keyword .forWord :: .identifier name :: .symbol .assign ::
          (start ++ .keyword .toWord :: (stop ++ .keyword .stepWord :: (by_ ++ line))))
        (.count () name first limit (some step) body block)
  | each {name : String} {words line : List Token} {collection body : Bare}
      (head : Expr words collection) (inner : Body line body true) :
      ForLoop (.keyword .forWord :: .identifier name :: .keyword .inWord :: (words ++ line))
        (.each () name collection body true)

inductive WhileLoop : List Token → Bare → Prop where
  | loop {words line : List Token} {condition body : Bare} {block : Bool}
      (test : Expr words condition) (inner : Body line body block) :
      WhileLoop (.keyword .whileWord :: (words ++ line)) (.loop () condition body block)

inductive Function : List Token → Bare → Prop where
  | define {head inner words : List Token} {name : Option String} {parameters : List String}
      {optional : List (String × Bare)} {body : Bare} {yields : Bool}
      (called : head = (name.map Token.identifier).toList)
      (names : Parameters inner parameters optional) (content : FunctionBody words body yields) :
      Function
        (.keyword .funcWord ::
          (head ++ .symbol .leftParen :: (inner ++ .symbol .rightParen :: words)))
        (.function () name parameters optional body yields)

/-- Names between commas; an equals sign behind the last one gives it a value, and then more
names with values follow. -/
inductive Parameters : List Token → List String → List (String × Bare) → Prop where
  | none : Parameters [] [] []
  | positional {rest : List Token} {first : String} {others : List String}
      (tail : AfterCommas Name rest others) :
      Parameters (.identifier first :: rest) (first :: others) []
  | optional {rest given more : List Token} {first last : String} {others before : List String}
      {value : Bare} {named : List (String × Bare)}
      (tail : AfterCommas Name rest others)
      (ending : first :: others = before ++ [last]) (behind : Atom given value)
      (further : AfterCommas Named more named) :
      Parameters (.identifier first :: (rest ++ .symbol .assign :: (given ++ more))) before
        ((last, value) :: named)

inductive FunctionBody : List Token → Bare → Bool → Prop where
  | arrow {words : List Token} {body : Bare} (inner : Expr words body) :
      FunctionBody (.symbol .arrow :: words) body true
  | lines {words : List Token} {body : Bare} (inner : Statements words body) :
      FunctionBody (.symbol .leftCurly :: .newline :: (words ++ [.symbol .rightCurly])) body false

end

/-- A loop over the elements of a collection on one line.  No script contains one. -/
def InlineEach (words : List Token) : Prop :=
  ∃ name first line collection body,
    words = .keyword .forWord :: .identifier name :: .keyword .inWord ::
      (first ++ .symbol .colon :: line) ∧
    Expr first collection ∧ Statement line body

/-- A whole script: statements, or nothing at all. -/
inductive Script : List Token → Bare → Prop where
  | empty : Script [] (.list () [])
  | lines {words : List Token} {tree : Bare} (inner : Statements words tree) : Script words tree

end Phrase

end Lingo
