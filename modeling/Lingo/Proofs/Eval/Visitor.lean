/-
Visits that keep records.

A visit does what an evaluation does, but it ends with a record that has a place of its own for
each way of ending.  It takes over how each of its parts ended, and looks at the record to see
whether it goes on; a part may leave it without a value.
-/

import Lingo.Eval.Outcome
import Lingo.Proofs.Eval.Course

namespace Lingo

abbrev Record := Outcome Fault ObjectId

abbrev Visitor := Script → Context → Activity Record

abbrev Recorder := Object → List ObjectId → List (String × Slot) → Activity Record

def Eval.record (evaluation : Eval ObjectId) : Activity Record :=
  Outcome.ofResult <$> evaluation.run

namespace Record

/-- What the answer of a function is to the record of a call: only an object is a value. -/
def ofAnswer : Except Interrupt Slot → Record
  | .ok (.object id) => .succeed id
  | .ok _ => {}
  | .error interrupt => .ofResult (.error interrupt)

/-- What is read off a record: a fault first, and then a value. -/
def result (record : Record) : Except Interrupt ObjectId :=
  match record.error, record.value, record.returned with
  | some fault, _, _ => .error (.failed fault)
  | none, some id, _ => .ok id
  | none, none, some id => .error (.returned id)
  | none, none, none => .error (if record.skipped then .skipped else .left)

/-- Takes over how a part ended.  What comes next has the record and the value of the part, unless
the part was interrupted. -/
def register (record : Record) (part : Activity Record)
    (next : Record → Option ObjectId → Activity Record) : Activity Record := do
  let part ← part
  let record := Outcome.register record part
  if record.isInterrupted then return record else next record part.value

end Record

namespace Visitor

open Activity Evaluator

def evaluator (self : Visitor) : Evaluator := fun script context =>
  ExceptT.mk (Record.result <$> self script context)

def slot : Option ObjectId → Slot
  | some id => .object id
  | none => .nothing

/-! ### Simple values -/

def visitAll (self : Visitor) (context : Context)
    (next : Record → List (Option ObjectId) → Activity Record) :
    List Script → Record → List (Option ObjectId) → Activity Record
  | [], record, values => next record values.reverse
  | item :: rest, record, values =>
      record.register (self item context) fun record value =>
        visitAll self context next rest record (value :: values)

def makeListOf (span : Span) (context : Context) (values : List (Option ObjectId)) :
    Activity Record := do
  return .succeed (← make (.list (← addList (values.map slot).toArray)) span context)

def visitList (self : Visitor) (span : Span) (items : List Script) (context : Context) :
    Activity Record :=
  visitAll self context (fun _ values => makeListOf span context values) items {} []

/-- Visits the entries of a dictionary.  The key is taken over after its value, and only then the
record is looked at. -/
def visitEntries (self : Visitor) (context : Context)
    (next : List (ObjectId × Slot) → Activity Record) :
    List ((Span × String) × Script) → Record → List (ObjectId × Slot) → Activity Record
  | [], _, pairs => next pairs.reverse
  | entry :: rest, record, pairs => do
      let value ← self entry.2 context
      let record := Outcome.register record value
      let key ← make (.text entry.1.2) entry.1.1 context
      let record := Outcome.register record (.succeed key)
      if record.isInterrupted then return record
      else visitEntries self context next rest record ((key, slot value.value) :: pairs)

def visitDict (self : Visitor) (span : Span) (entries : List ((Span × String) × Script))
    (context : Context) : Activity Record :=
  visitEntries self context
    (fun pairs => do return .succeed (← make (.dict (← addDict pairs.toArray)) span context))
    entries {} []

/-- A name is set to what its value is, be it missing or not. -/
def visitAssign (self : Visitor) (name : String) (value : Script) (context : Context) :
    Activity Record :=
  Record.register {} (self value context) fun _ value => do
    let table ← tableOf context
    changeStore (·.setSymbol table name value)
    return { value }

/-! ### Operators -/

def visitBinary (self : Visitor) (span : Span) (op : BinaryOp) (left right : Script)
    (context : Context) : Activity Record :=
  Record.register {} (self left context) fun record a =>
    record.register (self right context) fun _ b => do
      let a ← part a
      let b ← part b
      Eval.record do claim span (← operate op (← object a) (← object b))

def visitUnary (self : Visitor) (span : Span) (op : UnaryOp) (operand : Script)
    (context : Context) : Activity Record :=
  Record.register {} (self operand context) fun _ value => do
    let id ← part value
    Eval.record (match op with
      | .plus => claim span (.object id)
      | .minus => do claim span (← operate .mul (← object id) Operation.minusOne)
      | .negation => do
          let subject ← object id
          let result ← Eval.ofFault (Operation.negation subject)
          claim span (← yieldValue subject.context result))

/-! ### Branches -/

def visitBody (self : Visitor) (record : Record) (body : Script) (block : Bool)
    (context : Context) : Activity Record :=
  record.register (self body context) fun _ value =>
    return { value := if block then some Store.nullId else value }

def visitBranch (self : Visitor) (context : Context) (otherwise : Option (Script × Bool)) :
    Record → List (Script × Script × Bool) → Activity Record
  | record, [] =>
      match otherwise with
      | some (body, block) => visitBody self record body block context
      | none => return .succeed Store.nullId
  | record, (condition, body, block) :: rest =>
      record.register (self condition context) fun record test => do
        if Operation.isTrue (← object (← part test)) then visitBody self record body block context
        else visitBranch self context otherwise record rest

/-! ### Loops -/

/-- One round.  The record keeps what ended it, and the next round takes over from there. -/
def visitRound (record : Record) (body : Activity Record) (values : List (Option ObjectId))
    (again : Record → List (Option ObjectId) → Activity Record)
    (leave : List (Option ObjectId) → Activity Record) : Activity Record := do
  let part ← body
  let record := Outcome.register record part
  if record.isInterrupted && !record.left && !record.skipped then return record
  else if record.skipped then again record values
  else if record.left then leave values.reverse
  else again record (part.value :: values)

def finishLoop (span : Span) (block : Bool) (context : Context)
    (values : List (Option ObjectId)) : Activity Record :=
  if block then return .succeed Store.nullId else makeListOf span context values

def visitCountRounds (self : Visitor) (name : String) (limit step : ObjectId) (rising : Bool)
    (body : Script) (context : Context) (leave : List (Option ObjectId) → Activity Record) :
    Nat → Scalar → Record → List (Option ObjectId) → Activity Record
  | 0, _, _, _ => crash .tooDeep
  | rounds + 1, counter, record, values => do
      if ← settle (within rising counter (← scalar limit)) then
        assign context name (← makeBare (.number counter))
        let next ← settle (counter.add (← scalar step))
        visitRound record (self body context) values
          (visitCountRounds self name limit step rising body context leave rounds next) leave
      else leave values.reverse

def visitStep (self : Visitor) (record : Record) (step : Option Script) (context : Context)
    (next : Record → Option ObjectId → Activity Record) : Activity Record :=
  match step with
  | some step => record.register (self step context) next
  | none => do next record (some (← makeBare (.number (.int 1))))

def visitCount (limits : Limits) (self : Visitor) (span : Span) (name : String)
    (first limit : Script) (step : Option Script) (body : Script) (block : Bool)
    (context : Context) : Activity Record :=
  Record.register {} (self first context) fun record start =>
    record.register (self limit context) fun record stop =>
      visitStep self record step context fun record stride => do
        let counter ← scalar (← part start)
        let stride ← part stride
        let rising ← settle ((← scalar stride).ge (.int 0))
        visitCountRounds self name (← part stop) stride rising body context
          (finishLoop span block context) limits.rounds counter record []

def visitEachRounds (self : Visitor) (name : String) (collection : Collection) (body : Script)
    (context : Context) (leave : List (Option ObjectId) → Activity Record) :
    Nat → Nat → Record → List (Option ObjectId) → Activity Record
  | 0, _, _, _ => crash .tooDeep
  | rounds + 1, index, record, values => do
      match ← collection.next index with
      | some slot =>
          let held ← scalar (← objectAt slot)
          assign context name (← makeBare (.number held))
          visitRound record (self body context) values
            (visitEachRounds self name collection body context leave rounds (index + 1)) leave
      | none => leave values.reverse

/-- Only a fault keeps a loop from reading its collection. -/
def visitEach (limits : Limits) (self : Visitor) (span : Span) (name : String)
    (collection body : Script) (block : Bool) (context : Context) : Activity Record := do
  let read ← self collection context
  let record := Outcome.register {} read
  if record.error.isSome then return record
  else
    visitEachRounds self name (← collectionOf (← part read.value)) body context
      (finishLoop span block context) limits.rounds 0 record []

def visitLoopRounds (self : Visitor) (condition body : Script) (context : Context)
    (leave : List (Option ObjectId) → Activity Record) :
    Nat → Record → List (Option ObjectId) → Activity Record
  | 0, _, _ => crash .tooDeep
  | rounds + 1, record, values =>
      record.register (self condition context) fun record test => do
        if Operation.isTrue (← object (← part test)) then
          visitRound record (self body context) values
            (visitLoopRounds self condition body context leave rounds) leave
        else leave values.reverse

/-! ### Functions -/

/-- Visits default values.  Only a fault is looked at. -/
def visitDefaults (self : Visitor) (context : Context) (next : List Slot → Activity Record) :
    List (String × Script) → Record → List Slot → Activity Record
  | [], _, slots => next slots.reverse
  | (_, value) :: rest, record, slots => do
      let part ← self value context
      let record := Outcome.register record part
      if record.error.isSome then return record
      else visitDefaults self context next rest record (slot part.value :: slots)

def visitFunction (self : Visitor) (span : Span) (name : Option String)
    (parameters : List String) (optional : List (String × Script)) (body : Script)
    (yields : Bool) (context : Context) : Activity Record := do
  let machine ← get
  let globals := machine.store.table machine.globals
  match name.filter fun known => (globals.own? known).isSome with
  | some known => Eval.record (failAt (.functionExists known) span context)
  | none =>
      visitDefaults self context
        (fun slots => do
          let defaults ← addDefaults slots.toArray
          let id ← make
            (.function
              { name := name.getD anonymous, body, parameters, optional := optional.map (·.1),
                defaults, yields })
            span context
          nameValue name id context
          return .succeed id)
        optional {} []

/-- The check of the number of arguments, and the bindings of all parameters.  The record of it has
no value even if all is well. -/
def visitParameters (function : Object) (closure : Closure) (arguments : List ObjectId)
    (context : Context) : Activity Record := do
  match checkCount closure.name function closure.parameters arguments with
  | .error fault => return .fail fault
  | .ok () =>
      bindAll context (closure.parameters.zip (arguments.map .object))
      let values := (← store).defaultValues closure.defaults
      bindAll context (closure.optional.zip values.toList)
      return {}

/-- The result of a script function: the value of the body if it is asked for, else what was
returned, and else nothing. -/
def conclude (closure : Closure) (record : Record) (value : Option ObjectId) : Record :=
  if record.isInterrupted && record.returned.isNone then record
  else
    let value := if closure.yields then value else none
    .succeed ((value.or record.returned).getD Store.nullId)

def executeFunction (self : Visitor) (function : Object) (closure : Closure)
    (arguments : List ObjectId) (given : List (String × Slot)) : Activity Record := do
  let context ← callContext closure.name function
  changeStore (·.modifyDefaults closure.defaults (overrideDefaults closure.optional given))
  Record.register {} (visitParameters function closure arguments context) fun record _ => do
    let body ← self closure.body context
    return conclude closure (Outcome.register record body) body.value

/-! ### Calls -/

def execute (self : Visitor) : Recorder := fun function arguments given =>
  match function.payload with
  | .function closure => executeFunction self function closure arguments given
  | .builtin name => Record.ofAnswer <$> (callBuiltin self.evaluator function name arguments).run
  | _ => crash .missingPart

/-- Visits the values given to optional parameters.  The record is not looked at. -/
def visitGiven (self : Visitor) (context : Context) (known : List String)
    (next : Record → List (String × Slot) → Activity Record) :
    List (String × Script) → Record → List (String × Slot) → Activity Record
  | [], record, given => next record given.reverse
  | (name, value) :: rest, record, given => do
      if name ∈ known then
        let part ← self value context
        visitGiven self context known next rest (Outcome.register record part)
          ((name, slot part.value) :: given)
      else crash .missingPart

def visitCall (self : Visitor) (execute : Recorder) (span : Span) (callee : Script)
    (arguments : List Script) (optional : List (String × Script)) (context : Context) :
    Activity Record :=
  Record.register {} (self callee context) fun record callee => do
    let called ← copy (← part callee)
    setPlace called span
    visitAll self context
      (fun record values => do
        let known ← optionalNames (← object called).payload
        visitGiven self context known
          (fun record given => do
            let values ← values.mapM fun value => (part value : Activity ObjectId)
            let function ← object called
            record.register (execute function values given) fun _ value => do
              return .succeed (← retrieve span context (← part value)))
          optional record [])
      arguments record []

def visitReturn (self : Visitor) (value : Option Script) (context : Context) : Activity Record :=
  match value with
  | some value =>
      Record.register {} (self value context) fun _ value => return { returned := value }
  | none => return .giveBack Store.nullId

/-! ### All trees -/

def step (limits : Limits) (self : Visitor) (execute : Recorder) : Visitor
  | .number span literal, context => do
      return .succeed (← make (.number literal.scalar) span context)
  | .string span text, context => do return .succeed (← make (.text text) span context)
  | .list span items, context => visitList self span items context
  | .dict span entries, context => visitDict self span entries context
  | .access span name owner, context => Eval.record (accessValue span name owner context)
  | .assign _ name value, context => visitAssign self name value context
  | .binary span op left right, context => visitBinary self span op left right context
  | .unary span op operand, context => visitUnary self span op operand context
  | .branch _ cases otherwise, context => visitBranch self context otherwise {} cases
  | .count span name first limit step body block, context =>
      visitCount limits self span name first limit step body block context
  | .each span name collection body block, context =>
      visitEach limits self span name collection body block context
  | .loop span condition body block, context =>
      visitLoopRounds self condition body context (finishLoop span block context) limits.rounds
        {} []
  | .function span name parameters optional body yields, context =>
      visitFunction self span name parameters optional body yields context
  | .call span callee arguments optional, context =>
      visitCall self execute span callee arguments optional context
  | .giveBack _ value, context => visitReturn self value context
  | .skip _, _ => return .skip
  | .leave _, _ => return .leave

def atDepth (limits : Limits) : Nat → Visitor
  | 0 => fun _ _ => crash .tooDeep
  | depth + 1 => step limits (atDepth limits depth) (execute (atDepth limits depth))

end Visitor

end Lingo
