/-
Operators on values.

A pairing of operands without a meaning is an illegal operation, reported from the start of the
left operand to the stop of the right one.
-/

import Lingo.Scalar.Arithmetic
import Lingo.Store.Basic

namespace Lingo.Operation

inductive Yield where
  | fresh (payload : Payload)
  | existing (slot : Slot)
deriving Inhabited

def fault (complaint : Complaint) (start stop : Option Position) (context : Option Context) :
    Fault :=
  { cause := .running complaint ((context.map Context.trace).getD []), start, stop }

def illegal (left right : Object) : Fault :=
  fault .illegalOperation left.start right.stop left.context

def isTrue (object : Object) : Bool :=
  match object.payload with
  | .number value => !value.isZero
  | .text value => value != ""
  | _ => false

def scalars (op : BinaryOp) (a b : Scalar) : Except Crash Scalar :=
  match op with
  | .add => a.add b
  | .sub => a.sub b
  | .mul => a.mul b
  | .div => a.div b
  | .floorDiv => a.floorDiv b
  | .mod => a.mod b
  | .pow => a.pow b
  | .eq => .ok (.ofBool (a.equals b))
  | .ne => .ok (.ofBool (!a.equals b))
  | .lt => do return .ofBool (← a.lt b)
  | .gt => do return .ofBool (← a.gt b)
  | .le => do return .ofBool (← a.le b)
  | .ge => do return .ofBool (← a.ge b)
  | .both => a.both b
  | .either => a.either b

def divides : BinaryOp → Bool
  | .div | .floorDiv | .mod => true
  | _ => false

def numbers (op : BinaryOp) (left right : Object) (a b : Scalar) :
    Except Crash (Except Fault Yield) :=
  if divides op ∧ b.isZero then
    .ok (.error (fault .divisionByZero right.start right.stop left.context))
  else do return .ok (.fresh (.number (← scalars op a b)))

def index? (size : Nat) (index : Int) : Option Nat :=
  if 0 ≤ index ∧ index < size then some index.toNat
  else if -(size : Int) ≤ index ∧ index < 0 then some (index + size).toNat
  else none

def place? (size : Nat) : Scalar → Option Nat
  | .int n => index? size n
  | _ => none

def binary (store : Store) (op : BinaryOp) (left right : Object) :
    Except Crash (Except Fault Yield) :=
  match left.payload, right.payload with
  | .number a, .number b => numbers op left right a b
  | .text a, .text b =>
      match op with
      | .add => .ok (.ok (.fresh (.text (a ++ b))))
      | _ => .ok (.error (illegal left right))
  | .text a, .number (.int b) =>
      match op with
      | .mul => do return .ok (.fresh (.text (← Scalar.repeated a b)))
      | _ => .ok (.error (illegal left right))
  | .text _, .number _ =>
      match op with
      | .mul => .error .operandKinds
      | _ => .ok (.error (illegal left right))
  | .list items, .number index =>
      match op with
      | .div =>
          let slots := store.items items
          match (place? slots.size index).bind (slots[·]?) with
          | some slot => .ok (.ok (.existing slot))
          | none =>
              .ok (.error (fault .elementOutOfBounds right.start right.stop left.context))
      | _ => .ok (.error (illegal left right))
  | _, _ => .ok (.error (illegal left right))

def minusOne : Object :=
  { payload := .number (.int (-1)) }

def negation (object : Object) : Except Fault Yield :=
  match object.payload with
  | .number value => .ok (.fresh (.number (.ofBool value.isZero)))
  | _ => .error (illegal object object)

end Lingo.Operation
