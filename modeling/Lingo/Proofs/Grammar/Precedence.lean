/-
Ranks: how tightly phrases hold together.

The rules for expressions are numbered from the loosest to the tightest:

    0  expr             5  product
    1  joined by and or 6  factor
    2  comparison       7  power
    3  joined by == ... 8  call
    4  sum              9  atom

Words spell a tree at a rank if the rule of that rank reads them as the tree in front of
any token that does not bind them more tightly.  What is spelt at a rank is spelt at each
looser one, so that an operand needs parentheses only if its rank is too low.
-/

import Lingo.Proofs.Grammar.Repetition
import Lingo.Proofs.Grammar.Success

namespace Lingo

namespace Token

/-- One more than the rank of the rule that goes on with a token behind a phrase; zero if the
phrase is over. -/
def pull : Token → Nat
  | keyword .andWord | keyword .orWord => 2
  | symbol .equal | symbol .notEqual | symbol .less | symbol .greater | symbol .lessEqual
  | symbol .greaterEqual => 4
  | symbol .plus | symbol .minus => 5
  | symbol .times | symbol .divide | symbol .floorDivide | symbol .remainder => 6
  | symbol .power => 8
  | symbol .leftParen => 9
  | symbol .dot => 10
  | _ => 0

/-- One more than the rank of the tightest phrases that begin with a token; zero if none does. -/
def opening : Token → Nat
  | keyword .varWord => 1
  | keyword .notWord => 3
  | symbol .plus | symbol .minus => 7
  | int _ | float _ | string _ | identifier _ => 10
  | symbol .leftParen | symbol .leftSquare | symbol .leftCurly => 10
  | keyword .ifWord | keyword .forWord | keyword .whileWord | keyword .funcWord => 10
  | _ => 0

end Token

def BinaryOp.rank : BinaryOp → Nat
  | .both | .either => 1
  | .eq | .ne | .lt | .gt | .le | .ge => 3
  | .add | .sub => 4
  | .mul | .div | .floorDiv | .mod => 5
  | .pow => 7

def UnaryOp.rank : UnaryOp → Nat
  | .negation => 2
  | .plus | .minus => 6

theorem BinaryOp.rank_lt (op : BinaryOp) : op.rank < 9 := by
  cases op <;> decide

theorem UnaryOp.rank_le (op : UnaryOp) : op.rank ≤ 9 := by
  cases op <;> decide

namespace Grammar

open Rule

variable {token : Token} {op : BinaryOp}

/-! ### Rules and levels -/

/-- A rule reads words at each level from which there are enough levels down. -/
def Parses {α : Type} (rule : Level → Rule α) (words left : List Token) (post : α → Prop) : Prop :=
  ∀ depth : Nat, words.length ≤ depth → Reads (rule (Level.of depth)) words left post

theorem Parses.down {α : Type} {rule : Level → Rule α} {words left : List Token} {post : α → Prop}
    {depth : Nat} (parses : Parses rule words left post) (field : Level → Rule α)
    (unfolds : ∀ level : Level, field level.next = rule level) (shorter : words.length < depth) :
    Reads (field (Level.of depth)) words left post := by
  obtain ⟨less, rfl⟩ : ∃ less, depth = less + 1 := ⟨depth - 1, by omega⟩
  have enough : words.length ≤ less := by omega
  change Reads (field (Level.of less).next) words left post
  rw [unfolds]
  exact parses less enough

/-! ### Joined operands -/

section

variable {operator? : Token → Option BinaryOp} {first right : Rule Script}
  {words rest left : List Token} {found : Script → Prop} {post : Script → Prop}

theorem reads_joinFrom_stop {tree : Script} {fuel : Nat} (final : Begins (operator? · = none) rest)
    (enough : rest.length < fuel) (holds : post tree) :
    Reads (joinFrom operator? right fuel tree) rest rest post := by
  obtain ⟨fuel, rfl⟩ : ∃ less, fuel = less + 1 := ⟨fuel - 1, by omega⟩
  obtain ⟨token, others, rfl, none⟩ := final.exists_eq_cons
  unfold joinFrom
  apply Reads.current
  intro placed here
  rw [here, none]
  exact reads_pure holds

theorem reads_joinFrom_step {tree : Script} {fuel : Nat} (known : operator? token = some op)
    (operand : Reads right words rest found) (shorter : rest.length ≤ words.length)
    (enough : (token :: words).length < fuel)
    (more : ∀ (operand : Script) (span : Span) (fuel : Nat), found operand → rest.length < fuel →
      Reads (joinFrom operator? right fuel (.binary span op tree operand)) rest left post) :
    Reads (joinFrom operator? right fuel tree) (token :: words) left post := by
  rw [List.length_cons] at enough
  obtain ⟨fuel, rfl⟩ : ∃ less, fuel = less + 1 := ⟨fuel - 1, by omega⟩
  unfold joinFrom
  apply Reads.current
  intro placed here
  rw [here, known]
  apply Reads.advance
  apply operand.register.bind
  intro result holds
  exact more result _ fuel holds (by omega)

theorem reads_joined (one : Reads first words rest found)
    (more : ∀ (tree : Script) (fuel : Nat), found tree → rest.length < fuel →
      Reads (joinFrom operator? right fuel tree) rest left post) :
    Reads (joined operator? first right) words left post := by
  unfold joined
  apply one.register.bind
  intro tree holds tokens start counts here
  have enough : rest.length < tokens.size - start + 1 := by
    rw [← here, length_ahead]
    exact Nat.lt_succ_self _
  exact more tree (tokens.size - start + 1) holds enough tokens start counts here

theorem reads_joined_one (one : Reads first words rest found)
    (final : Begins (operator? · = none) rest) :
    Reads (joined operator? first right) words rest found := by
  apply reads_joined one
  intro tree fuel holds enough
  exact reads_joinFrom_stop final enough holds

end

/-! ### Ranks -/

def rankRule : Nat → Level → Rule Script
  | 0, level => expr level
  | 1, level => joined logicOperator? (comparison level) (comparison level)
  | 2, level => comparison level
  | 3, level => joined comparisonOperator? (sum level) (sum level)
  | 4, level => sum level
  | 5, level => product level
  | 6, level => factor level
  | 7, level => power level
  | 8, level => call level
  | _, level => atom level

/-- Words spell a tree at a rank, in front of good tokens that do not bind them more tightly. -/
structure Spells (good : Token → Prop) (rank : Nat) (words : List Token) (tree : Bare) : Prop where
  opening : Begins (fun token => rank < token.opening) words
  parses : ∀ rest : List Token, Begins good rest → Begins (fun token => token.pull ≤ rank) rest →
    Parses (rankRule rank) (words ++ rest) rest fun result => result.bare = tree

/-- The operators that join operands at a rank. -/
def operatorAt : Nat → Token → Option BinaryOp
  | 1 => logicOperator?
  | 3 => comparisonOperator?
  | 4 => sumOperator?
  | 5 => productOperator?
  | 7 => powerOperator?
  | _ => fun _ => none

theorem pull_token (op : BinaryOp) : op.token.pull = op.rank + 1 := by
  cases op <;> rfl

theorem pull_ne_seven (token : Token) : token.pull ≠ 7 := by
  unfold Token.pull
  split <;> decide

theorem opening_token (op : UnaryOp) : op.token.opening = op.rank + 1 := by
  cases op <;> rfl

theorem operatorAt_token (op : BinaryOp) : operatorAt op.rank op.token = some op := by
  cases op <;> rfl

theorem operatorAt_eq_some {rank : Nat} (found : operatorAt rank token = some op) :
    op.rank = rank ∧ token = op.token := by
  have logic : ∀ op ∈ [BinaryOp.both, .either], op.rank = 1 := by decide
  have comparison : ∀ op ∈ [BinaryOp.eq, .ne, .lt, .gt, .le, .ge], op.rank = 3 := by decide
  have sum : ∀ op ∈ [BinaryOp.add, .sub], op.rank = 4 := by decide
  have product : ∀ op ∈ [BinaryOp.mul, .div, .floorDiv, .mod], op.rank = 5 := by decide
  have power : ∀ op ∈ [BinaryOp.pow], op.rank = 7 := by decide
  unfold operatorAt at found
  split at found
  · exact (logicOperator?_some found).imp_left (logic op)
  · exact (comparisonOperator?_some found).imp_left (comparison op)
  · exact (sumOperator?_some found).imp_left (sum op)
  · exact (productOperator?_some found).imp_left (product op)
  · exact (powerOperator?_some found).imp_left (power op)
  · cases found

theorem operatorAt_of_pull {rank : Nat} (loose : token.pull ≤ rank) :
    operatorAt rank token = none := by
  cases found : operatorAt rank token with
  | none => rfl
  | some op =>
      obtain ⟨known, same⟩ := operatorAt_eq_some found
      rw [same, pull_token, known] at loose
      omega

/-! ### From one rank to the next looser one -/

section

variable {good : Token → Prop} {words : List Token} {tree : Bare}

theorem Spells.ofOperand {rank : Nat}
    (shape : ∀ level : Level, ∃ right : Rule Script,
      rankRule rank level = joined (operatorAt rank) (rankRule (rank + 1) level) right)
    (spells : Spells good (rank + 1) words tree) : Spells good rank words tree := by
  refine ⟨spells.opening.imp fun _ tight => by omega, ?_⟩
  intro rest goodRest loose depth enough
  have looser : Begins (fun token => token.pull ≤ rank + 1) rest :=
    loose.imp fun _ bound => by omega
  have stop : Begins (fun token => operatorAt rank token = none) rest :=
    loose.imp fun _ bound => operatorAt_of_pull bound
  obtain ⟨right, same⟩ := shape (Level.of depth)
  rw [same]
  exact reads_joined_one (spells.parses rest goodRest looser depth enough) stop

theorem Spells.call (spells : Spells good 9 words tree) : Spells good 8 words tree := by
  refine ⟨spells.opening.imp fun _ tight => by omega, ?_⟩
  intro rest goodRest loose depth enough
  have looser : Begins (fun token => token.pull ≤ 9) rest := loose.imp fun _ bound => by omega
  have noParen : Begins (· ≠ .symbol .leftParen) rest := by
    apply loose.imp
    intro token bound same
    rw [same] at bound
    exact absurd bound (by decide)
  change Reads (Grammar.call (Level.of depth)) (words ++ rest) rest _
  unfold Grammar.call
  apply (spells.parses rest goodRest looser depth enough).register.bind
  intro callee same
  apply Reads.notAtSymbol noParen
  exact reads_pure same

theorem Spells.factor (spells : Spells good 7 words tree) : Spells good 6 words tree := by
  refine ⟨spells.opening.imp fun _ tight => by omega, ?_⟩
  intro rest goodRest loose depth enough
  have looser : Begins (fun token => token.pull ≤ 7) rest := loose.imp fun _ bound => by omega
  have reads := spells.parses rest goodRest looser depth enough
  obtain ⟨token, others, rfl, tight⟩ := spells.opening.exists_eq_cons
  have noSign : signOperator? token = none := by
    cases found : signOperator? token with
    | none => rfl
    | some op =>
        obtain ⟨member, same⟩ := signOperator?_some found
        have known : ∀ op ∈ [UnaryOp.plus, .minus], op.rank = 6 := by decide
        rw [same, opening_token, known op member] at tight
        omega
  change Reads (Grammar.factor (Level.of depth)) (token :: others ++ rest) rest _
  unfold Grammar.factor
  apply Reads.current
  intro placed here
  rw [here, noSign]
  exact reads

theorem Spells.comparison (spells : Spells good 3 words tree) : Spells good 2 words tree := by
  refine ⟨spells.opening.imp fun _ tight => by omega, ?_⟩
  intro rest goodRest loose depth enough
  have looser : Begins (fun token => token.pull ≤ 3) rest := loose.imp fun _ bound => by omega
  have noNegation : Begins (· ≠ .keyword .notWord) (words ++ rest) := by
    apply (spells.opening.append rest).imp
    intro token tight same
    rw [same] at tight
    exact absurd tight (by decide)
  change Reads (Grammar.comparison (Level.of depth)) (words ++ rest) rest _
  unfold Grammar.comparison
  apply Reads.notAtKeyword noNegation
  exact (spells.parses rest goodRest looser depth enough).registerOr _

theorem Spells.expr (spells : Spells good 1 words tree) : Spells good 0 words tree := by
  refine ⟨spells.opening.imp fun _ tight => by omega, ?_⟩
  intro rest goodRest loose depth enough
  have looser : Begins (fun token => token.pull ≤ 1) rest := loose.imp fun _ bound => by omega
  have noAssignment : Begins (· ≠ .keyword .varWord) (words ++ rest) := by
    apply (spells.opening.append rest).imp
    intro token tight same
    rw [same] at tight
    exact absurd tight (by decide)
  change Reads (Grammar.expr (Level.of depth)) (words ++ rest) rest _
  unfold Grammar.expr
  apply Reads.notAtKeyword noAssignment
  exact (spells.parses rest goodRest looser depth enough).registerOr _

theorem Spells.looser {rank : Nat} (small : rank < 9) (spells : Spells good (rank + 1) words tree) :
    Spells good rank words tree := by
  match rank, small with
  | 0, _ => exact spells.expr
  | 1, _ => exact spells.ofOperand fun _ => ⟨_, rfl⟩
  | 2, _ => exact spells.comparison
  | 3, _ => exact spells.ofOperand fun _ => ⟨_, rfl⟩
  | 4, _ => exact spells.ofOperand fun _ => ⟨_, rfl⟩
  | 5, _ => exact spells.ofOperand fun _ => ⟨_, rfl⟩
  | 6, _ => exact spells.factor
  | 7, _ => exact spells.ofOperand fun _ => ⟨_, rfl⟩
  | 8, _ => exact spells.call

theorem Spells.le {tighter rank : Nat} (spells : Spells good tighter words tree)
    (bound : tighter ≤ 9) (loose : rank ≤ tighter) : Spells good rank words tree := by
  induction loose with
  | refl => exact spells
  | step further ih => exact ih (spells.looser (by omega)) (by omega)

/-! ### Parentheses and operators -/

theorem Spells.parenthesized {wider : Token → Prop} (spells : Spells good 0 words tree)
    (closing : good (.symbol .rightParen)) :
    Spells wider 9 (.symbol .leftParen :: words ++ [.symbol .rightParen]) tree := by
  refine ⟨Nat.lt_succ_self 9, ?_⟩
  intro rest _ _ depth enough
  have inner := spells.parses (.symbol .rightParen :: rest) closing (Nat.le_refl 0)
  have shorter : (words ++ .symbol .rightParen :: rest).length < depth := by
    simp only [List.length_append, List.length_cons, List.length_nil] at enough ⊢
    omega
  have spelt : Token.symbol .leftParen :: words ++ [.symbol .rightParen] ++ rest =
      .symbol .leftParen :: (words ++ .symbol .rightParen :: rest) := by simp
  rw [spelt]
  change Reads (Grammar.atom (Level.of depth)) _ rest _
  unfold Grammar.atom
  apply Reads.current
  intro placed here
  rw [here]
  apply Reads.advance
  apply (inner.down Level.expr (fun _ => rfl) shorter).register.bind
  intro result same
  apply (reads_expectSymbol .rightParen _).bind
  intro _ _
  exact reads_pure same

theorem Parses.prefixed {rule : Level → Rule Script} {op : UnaryOp} {rest : List Token}
    (operand : Parses rule words rest fun result => result.bare = tree)
    (field : Level → Rule Script) (unfolds : ∀ level : Level, field level.next = rule level) :
    Parses (fun level => prefixed op (field level)) (token :: words) rest fun result =>
      result.bare = .unary () op tree := by
  intro depth enough
  have shorter : words.length < depth := enough
  apply Reads.anyCurrent
  intro placed
  apply Reads.advance
  apply (operand.down field unfolds shorter).register.bind
  intro result same
  apply reads_pure
  rw [Tree.bare, same]

theorem Spells.unary {op : UnaryOp} (operand : Spells good op.rank words tree) :
    Spells good op.rank (op.token :: words) (.unary () op tree) := by
  refine ⟨?_, ?_⟩
  · change op.rank < op.token.opening
    rw [opening_token]
    exact Nat.lt_succ_self op.rank
  · intro rest goodRest loose depth enough
    have inner := operand.parses rest goodRest loose
    cases op with
    | negation =>
        change Reads (Grammar.comparison (Level.of depth))
          (.keyword .notWord :: (words ++ rest)) rest _
        unfold Grammar.comparison
        apply Reads.atKeyword
        exact inner.prefixed Level.comparison (fun _ => rfl) depth enough
    | plus =>
        change Reads (Grammar.factor (Level.of depth)) (.symbol .plus :: (words ++ rest)) rest _
        unfold Grammar.factor
        apply Reads.current
        intro placed here
        rw [here]
        exact inner.prefixed Level.factor (fun _ => rfl) depth enough
    | minus =>
        change Reads (Grammar.factor (Level.of depth)) (.symbol .minus :: (words ++ rest)) rest _
        unfold Grammar.factor
        apply Reads.current
        intro placed here
        rw [here]
        exact inner.prefixed Level.factor (fun _ => rfl) depth enough

theorem Spells.mono {narrower : Token → Prop} {rank : Nat} (spells : Spells good rank words tree)
    (entails : ∀ token, narrower token → good token) : Spells narrower rank words tree :=
  ⟨spells.opening, fun rest goodRest => spells.parses rest (goodRest.imp entails)⟩

end

/-! ### Operands joined from the left -/

abbrev anyToken : Token → Prop := fun _ => True

/-- The rule of a rank joins operands of the next rank from the left. -/
def JoinsLeft (rank : Nat) : Prop :=
  ∀ level : Level, rankRule rank level =
    joined (operatorAt rank) (rankRule (rank + 1) level) (rankRule (rank + 1) level)

theorem joinsLeft_of_ne_pow (other : op ≠ .pow) : JoinsLeft op.rank := by
  cases op with
  | pow => exact absurd rfl other
  | _ => exact fun _ => rfl

/-- Words begin a chain of operands: behind them, joining goes on with their tree on the left. -/
structure Chains (rank : Nat) (words : List Token) (tree : Bare) : Prop where
  opening : Begins (fun token => rank < token.opening) words
  goesOn : ∀ {depth : Nat} {rest left : List Token} {post : Script → Prop},
    (words ++ rest).length ≤ depth → Begins (fun token => token.pull ≤ rank + 1) rest →
    (∀ (script : Script) (fuel : Nat), script.bare = tree → rest.length < fuel →
      Reads (joinFrom (operatorAt rank) (rankRule (rank + 1) (Level.of depth)) fuel script)
        rest left post) →
    Reads (rankRule rank (Level.of depth)) (words ++ rest) left post

section

variable {rank : Nat} {words others : List Token} {tree operand : Bare}

theorem Begins.anyToken {kind : Token → Prop} (begins : Begins kind words) :
    Begins anyToken words :=
  begins.imp fun _ _ => trivial

theorem Chains.one (joins : JoinsLeft rank) (spells : Spells anyToken (rank + 1) words tree) :
    Chains rank words tree := by
  refine ⟨spells.opening.imp fun _ tight => by omega, ?_⟩
  intro depth rest left post enough loose more
  rw [joins]
  exact reads_joined (spells.parses rest (Begins.anyToken loose) loose depth enough) more

theorem Chains.more (chains : Chains op.rank words tree)
    (spells : Spells anyToken (op.rank + 1) others operand) :
    Chains op.rank (words ++ op.token :: others) (.binary () op tree operand) := by
  refine ⟨chains.opening.append _, ?_⟩
  intro depth rest left post enough loose more
  have binds : Begins (fun token => token.pull ≤ op.rank + 1) (op.token :: (others ++ rest)) :=
    Nat.le_of_eq (pull_token op)
  rw [List.append_assoc, List.cons_append] at enough ⊢
  -- The chain so far is the left operand of whatever is joined next.
  apply chains.goesOn enough binds
  intro script fuel same fueled
  have fits : (others ++ rest).length ≤ depth := by
    rw [List.length_append, List.length_cons] at enough
    omega
  have shorter : rest.length ≤ (others ++ rest).length := by
    rw [List.length_append]
    omega
  have behind := spells.parses rest (Begins.anyToken loose) loose depth fits
  apply reads_joinFrom_step (operatorAt_token op) behind shorter fueled
  intro right span fuel sameRight fueled
  apply more _ fuel _ fueled
  rw [Tree.bare, same, sameRight]

theorem Chains.spells (chains : Chains rank words tree) : Spells anyToken rank words tree := by
  refine ⟨chains.opening, ?_⟩
  intro rest _ loose depth enough
  have looser : Begins (fun token => token.pull ≤ rank + 1) rest :=
    loose.imp fun _ bound => by omega
  have stop : Begins (fun token => operatorAt rank token = none) rest :=
    loose.imp fun _ bound => operatorAt_of_pull bound
  apply chains.goesOn enough looser
  intro script fuel same fueled
  exact reads_joinFrom_stop stop fueled same

/-- A power has a factor on its right, which takes all further powers. -/
theorem Spells.power (base : Spells anyToken 8 words tree)
    (exponent : Spells anyToken 6 others operand) :
    Spells anyToken 7 (words ++ .symbol .power :: others) (.binary () .pow tree operand) := by
  refine ⟨(base.opening.append _).imp fun _ tight => by omega, ?_⟩
  intro rest _ loose depth enough
  rw [List.append_assoc, List.cons_append] at enough ⊢
  have binds : Begins (fun token => token.pull ≤ 8) (.symbol .power :: (others ++ rest)) :=
    Nat.le_refl 8
  have looser : Begins (fun token => token.pull ≤ 6) rest := by
    apply loose.imp
    intro token bound
    have gap := pull_ne_seven token
    omega
  have stop : Begins (fun token => operatorAt 7 token = none) rest :=
    loose.imp fun _ bound => operatorAt_of_pull bound
  have shorter : (others ++ rest).length < depth := by
    rw [List.length_append, List.length_cons] at enough
    obtain ⟨token, more, rfl, _⟩ := base.opening.exists_eq_cons
    rw [List.length_cons] at enough
    omega
  have least : rest.length ≤ (others ++ rest).length := by
    rw [List.length_append]
    omega
  have first := base.parses (.symbol .power :: (others ++ rest)) trivial binds depth enough
  have behind := (exponent.parses rest (Begins.anyToken loose) looser).down Level.factor
    (fun _ => rfl) shorter
  change Reads (Grammar.power (Level.of depth)) _ rest _
  apply reads_joined first
  intro left fuel same fueled
  apply reads_joinFrom_step rfl behind least fueled
  intro right span fuel sameRight fueled
  apply reads_joinFrom_stop stop fueled
  rw [Tree.bare, same, sameRight]

theorem Spells.binary (op : BinaryOp) (first : Spells anyToken 9 words tree)
    (second : Spells anyToken 9 others operand) :
    Spells anyToken op.rank (words ++ op.token :: others) (.binary () op tree operand) := by
  by_cases power : op = .pow
  · subst power
    exact Spells.power (first.le (by decide) (by decide)) (second.le (by decide) (by decide))
  · have small : op.rank + 1 ≤ 9 := op.rank_lt
    have joins := joinsLeft_of_ne_pow power
    have chain := Chains.one joins (first.le (Nat.le_refl 9) small)
    exact (chain.more (second.le (Nat.le_refl 9) small)).spells

end

end Grammar

end Lingo
