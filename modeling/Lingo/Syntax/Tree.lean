/-
Trees: the meaningful structure of a script.

Reading a source annotates every node with the stretch of text that it comes from.
-/

import Lingo.Scalar.Basic

namespace Lingo

inductive Literal where
  | int (n : Nat)
  | float (x : Float)
deriving Repr, Inhabited

def Literal.scalar : Literal → Scalar
  | int n => .int n
  | float x => .float x

inductive BinaryOp where
  | add | sub | mul | div | floorDiv | mod | pow
  | eq | ne | lt | gt | le | ge
  | both | either
deriving DecidableEq, Repr, Inhabited

inductive UnaryOp where
  | plus | minus | negation
deriving DecidableEq, Repr, Inhabited

/-- The flag `block` of a loop or branch says that a body is written on lines of its own; such a
construct yields nothing. -/
inductive Tree (σ : Type) where
  | number (place : σ) (value : Literal)
  | string (place : σ) (text : String)
  | list (place : σ) (items : List (Tree σ))
  | dict (place : σ) (entries : List ((σ × String) × Tree σ))
  | access (place : σ) (name : String) (owner : Option String)
  | assign (place : σ) (name : String) (value : Tree σ)
  | binary (place : σ) (op : BinaryOp) (left right : Tree σ)
  | unary (place : σ) (op : UnaryOp) (operand : Tree σ)
  | branch (place : σ) (cases : List (Tree σ × Tree σ × Bool)) (otherwise : Option (Tree σ × Bool))
  | count (place : σ) (name : String) (first limit : Tree σ) (step : Option (Tree σ))
      (body : Tree σ) (block : Bool)
  | each (place : σ) (name : String) (collection body : Tree σ) (block : Bool)
  | loop (place : σ) (condition body : Tree σ) (block : Bool)
  /-- A function; `yields` says that the value of the body is its result. -/
  | function (place : σ) (name : Option String) (parameters : List String)
      (optional : List (String × Tree σ)) (body : Tree σ) (yields : Bool)
  | call (place : σ) (callee : Tree σ) (arguments : List (Tree σ))
      (optional : List (String × Tree σ))
  | giveBack (place : σ) (value : Option (Tree σ))
  | skip (place : σ)
  | leave (place : σ)
deriving Inhabited

namespace Tree

def place {σ : Type} : Tree σ → σ
  | number p _ => p
  | string p _ => p
  | list p _ => p
  | dict p _ => p
  | access p _ _ => p
  | assign p _ _ => p
  | binary p _ _ _ => p
  | unary p _ _ => p
  | branch p _ _ => p
  | count p _ _ _ _ _ _ => p
  | each p _ _ _ _ => p
  | loop p _ _ _ => p
  | function p _ _ _ _ _ => p
  | call p _ _ _ => p
  | giveBack p _ => p
  | skip p => p
  | leave p => p

end Tree

end Lingo
