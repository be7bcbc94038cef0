/-
Outlines: short texts of trees that consist of literals and operators.
-/

import Lingo.Syntax.Tree
import Lingo.Token.Basic

namespace Lingo

def Literal.token : Literal → Token
  | int n => .int n
  | float x => .float x

def BinaryOp.token : BinaryOp → Token
  | add => .symbol .plus
  | sub => .symbol .minus
  | mul => .symbol .times
  | div => .symbol .divide
  | floorDiv => .symbol .floorDivide
  | mod => .symbol .remainder
  | pow => .symbol .power
  | eq => .symbol .equal
  | ne => .symbol .notEqual
  | lt => .symbol .less
  | gt => .symbol .greater
  | le => .symbol .lessEqual
  | ge => .symbol .greaterEqual
  | both => .keyword .andWord
  | either => .keyword .orWord

def UnaryOp.token : UnaryOp → Token
  | plus => .symbol .plus
  | minus => .symbol .minus
  | negation => .keyword .notWord

def Tree.outline? {σ : Type} : Tree σ → Except Crash (Option String)
  | number _ value => do return some (← value.token.display)
  | string _ text => do return some (← (Token.string text).display)
  | binary _ op left right => do
      match ← left.outline?, ← right.outline? with
      | some a, some b => return some ("(" ++ a ++ ", " ++ (← op.token.display) ++ ", " ++ b ++ ")")
      | _, _ => return none
  | unary _ op operand => do
      match ← operand.outline? with
      | some a => return some ("(" ++ (← op.token.display) ++ ", " ++ a ++ ")")
      | none => return none
  | _ => .ok none

end Lingo
