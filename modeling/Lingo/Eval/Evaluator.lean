/-
The evaluation of scripts.

The evaluator of a nesting depth is built from that of the depth below, so that endless nesting
ends; loops are bounded by a number of rounds.
-/

import Lingo.Eval.Library

namespace Lingo

attribute [local instance (high)] instPowNat

structure Limits where
  depth : Nat
  rounds : Nat
deriving DecidableEq, Repr

abbrev Evaluator := Script → Context → Eval ObjectId

abbrev Executor := Object → List ObjectId → List (String × Slot) → Eval Slot

namespace Evaluator

open Activity

def failAt {α : Type} (complaint : Complaint) (span : Span) (context : Context) : Eval α :=
  Eval.fail (Operation.fault complaint (some span.start) (some span.stop) (some context))

def settled : Except Interrupt ObjectId → Slot
  | .ok id => .object id
  | .error _ => .nothing

/-! ### Simple values -/

def listValue (self : Evaluator) (span : Span) (items : List Script) (context : Context) :
    Eval ObjectId := do
  let ids ← items.mapM fun item => self item context
  make (.list (← addList (ids.map .object).toArray)) span context

/-- One entry: the value is evaluated before the key, and an interruption of the value is
passed over. -/
def entryValue (self : Evaluator) (context : Context) (entry : (Span × String) × Script) :
    Eval (ObjectId × Slot) := do
  let value ← (self entry.2 context).observe
  let key ← make (.text entry.1.2) entry.1.1 context
  return (key, settled value)

def dictValue (self : Evaluator) (span : Span) (entries : List ((Span × String) × Script))
    (context : Context) : Eval ObjectId := do
  let pairs ← entries.mapM (entryValue self context)
  make (.dict (← addDict pairs.toArray)) span context

def retrieve (span : Span) (context : Context) (id : ObjectId) : Activity ObjectId := do
  let copied ← copy id
  setPlace copied span
  setContext copied context
  return copied

def findName (span : Span) (name : String) (owner : Option String) (context : Context) :
    Eval (Option ObjectId) := do
  match owner with
  | some moduleName =>
      match ← module? moduleName with
      | some table => return (← store).lookup table name
      | none => failAt (.undefinedModule moduleName) span context
  | none => lookup context name

def accessValue (span : Span) (name : String) (owner : Option String) (context : Context) :
    Eval ObjectId := do
  match ← findName span name owner context with
  | some id => retrieve span context id
  | none => failAt (.undefinedName name) span context

def assignValue (self : Evaluator) (name : String) (value : Script) (context : Context) :
    Eval ObjectId := do
  let id ← self value context
  assign context name id
  return id

/-! ### Operators -/

/-- Turns what an operator yields into a value.  A new one belongs to the context of the
left operand. -/
def yieldValue (context : Option Context) : Operation.Yield → Activity Slot
  | .fresh payload => do return .object (← addObject { payload, context })
  | .existing slot => return slot

def operate (op : BinaryOp) (left right : Object) : Eval Slot := do
  let result ← settle (Operation.binary (← store) op left right)
  yieldValue left.context (← Eval.ofFault result)

def claim (span : Span) (slot : Slot) : Eval ObjectId := do
  let id ← objectAt slot
  setPlace id span
  return id

def binaryValue (self : Evaluator) (span : Span) (op : BinaryOp) (left right : Script)
    (context : Context) : Eval ObjectId := do
  let a ← self left context
  let b ← self right context
  claim span (← operate op (← object a) (← object b))

/-- A minus sign multiplies, a plus sign only claims the operand. -/
def unaryValue (self : Evaluator) (span : Span) (op : UnaryOp) (operand : Script)
    (context : Context) : Eval ObjectId := do
  let id ← self operand context
  match op with
  | .plus => claim span (.object id)
  | .minus => claim span (← operate .mul (← object id) Operation.minusOne)
  | .negation =>
      let subject ← object id
      let result ← Eval.ofFault (Operation.negation subject)
      claim span (← yieldValue subject.context result)

/-! ### Branches -/

def bodyValue (self : Evaluator) (body : Script) (block : Bool) (context : Context) :
    Eval ObjectId := do
  let id ← self body context
  return if block then Store.nullId else id

def branchValue (self : Evaluator) (context : Context) (otherwise : Option (Script × Bool)) :
    List (Script × Script × Bool) → Eval ObjectId
  | [] =>
      match otherwise with
      | some (body, block) => bodyValue self body block context
      | none => return Store.nullId
  | (condition, body, block) :: rest => do
      let test ← self condition context
      if Operation.isTrue (← object test) then bodyValue self body block context
      else branchValue self context otherwise rest

/-! ### Loops -/

inductive Round where
  | value (id : ObjectId)
  | skipped
  | left
deriving DecidableEq, Repr

def round (self : Evaluator) (body : Script) (context : Context) : Eval Round := do
  match ← (self body context).observe with
  | .ok id => return .value id
  | .error .skipped => return .skipped
  | .error .left => return .left
  | .error other => throw other

def loopValue (span : Span) (block : Bool) (context : Context) (values : List ObjectId) :
    Eval ObjectId := do
  if block then return Store.nullId
  else make (.list (← addList (values.map .object).toArray)) span context

def within (rising : Bool) (counter limit : Scalar) : Except Crash Bool :=
  if rising then counter.lt limit else counter.gt limit

/-- Counts, with the limit and the step read anew in each round. -/
def countRounds (self : Evaluator) (name : String) (limit step : ObjectId) (rising : Bool)
    (body : Script) (context : Context) : Nat → Scalar → List ObjectId → Eval (List ObjectId)
  | 0, _, _ => crash .tooDeep
  | rounds + 1, counter, values => do
      if ← settle (within rising counter (← scalar limit)) then
        assign context name (← makeBare (.number counter))
        let next ← settle (counter.add (← scalar step))
        match ← round self body context with
        | .value id =>
            countRounds self name limit step rising body context rounds next (id :: values)
        | .skipped => countRounds self name limit step rising body context rounds next values
        | .left => return values.reverse
      else return values.reverse

def stepValue (self : Evaluator) (step : Option Script) (context : Context) : Eval ObjectId :=
  match step with
  | some step => self step context
  | none => makeBare (.number (.int 1))

def countValue (limits : Limits) (self : Evaluator) (span : Span) (name : String)
    (first limit : Script) (step : Option Script) (body : Script) (block : Bool)
    (context : Context) : Eval ObjectId := do
  let start ← self first context
  let stop ← self limit context
  let stride ← stepValue self step context
  let counter ← scalar start
  let rising ← settle ((← scalar stride).ge (.int 0))
  let values ← countRounds self name stop stride rising body context limits.rounds counter []
  loopValue span block context values

/-- What a loop reads: the elements of a list, or the keys of a dictionary, which must not
grow meanwhile. -/
inductive Collection where
  | items (id : ListId)
  | keys (id : DictId) (size : Nat)
deriving DecidableEq, Repr

def Collection.next (collection : Collection) (index : Nat) : Activity (Option Slot) := do
  match collection with
  | .items id => return ((← store).items id)[index]?
  | .keys id size =>
      let entries := (← store).entries id
      if entries.size = size then return (entries[index]?).map fun entry => .object entry.1
      else crash .dictGrew

def collectionOf (id : ObjectId) : Activity Collection := do
  match (← object id).payload with
  | .list items => return .items items
  | .dict entries => return .keys entries ((← store).entries entries).size
  | _ => crash .missingPart

def eachRounds (self : Evaluator) (name : String) (collection : Collection) (body : Script)
    (context : Context) : Nat → Nat → List ObjectId → Eval (List ObjectId)
  | 0, _, _ => crash .tooDeep
  | rounds + 1, index, values => do
      match ← collection.next index with
      | some slot =>
          let held ← scalar (← objectAt slot)
          assign context name (← makeBare (.number held))
          match ← round self body context with
          | .value id =>
              eachRounds self name collection body context rounds (index + 1) (id :: values)
          | .skipped => eachRounds self name collection body context rounds (index + 1) values
          | .left => return values.reverse
      | none => return values.reverse

def eachValue (limits : Limits) (self : Evaluator) (span : Span) (name : String)
    (collection body : Script) (block : Bool) (context : Context) : Eval ObjectId := do
  match ← (self collection context).observe with
  | .ok id =>
      let values ← eachRounds self name (← collectionOf id) body context limits.rounds 0 []
      loopValue span block context values
  | .error (.failed fault) => Eval.fail fault
  | .error _ => crash .missingPart

def loopRounds (self : Evaluator) (condition body : Script) (context : Context) :
    Nat → List ObjectId → Eval (List ObjectId)
  | 0, _ => crash .tooDeep
  | rounds + 1, values => do
      let test ← self condition context
      if Operation.isTrue (← object test) then
        match ← round self body context with
        | .value id => loopRounds self condition body context rounds (id :: values)
        | .skipped => loopRounds self condition body context rounds values
        | .left => return values.reverse
      else return values.reverse

/-! ### Functions -/

/-- The default values of a function.  A fault is reported; any other interruption leaves
the parameter without a default. -/
def defaultSlots (self : Evaluator) (context : Context) : List (String × Script) → Eval (List Slot)
  | [] => return []
  | (_, value) :: rest => do
      match ← (self value context).observe with
      | .error (.failed fault) => Eval.fail fault
      | other => return settled other :: (← defaultSlots self context rest)

def anonymous : String := "<anonymous>"

def nameValue (name : Option String) (id : ObjectId) (context : Context) : Activity Unit :=
  match name with
  | some name => assign context name id
  | none => return ()

def functionValue (self : Evaluator) (span : Span) (name : Option String)
    (parameters : List String) (optional : List (String × Script)) (body : Script)
    (yields : Bool) (context : Context) : Eval ObjectId := do
  let machine ← get
  let globals := machine.store.table machine.globals
  match name.filter fun known => (globals.own? known).isSome with
  | some known => failAt (.functionExists known) span context
  | none =>
      let defaults ← addDefaults (← defaultSlots self context optional).toArray
      let id ← make
        (.function
          { name := name.getD anonymous, body, parameters, optional := optional.map (·.1),
            defaults, yields })
        span context
      nameValue name id context
      return id

/-- The context of a call: names are looked for in a new table and then where the function
value stands. -/
def callContext (name : String) (function : Object) : Activity Context := do
  let outer ← part function.context
  let table ← addTable { parent := outer.table }
  return { name, entered := function.start, table := some table } :: outer

def checkCount (name : String) (function : Object) (parameters : List String)
    (arguments : List ObjectId) : Except Fault Unit :=
  let report (complaint : Complaint) : Fault :=
    Operation.fault complaint function.start function.stop function.context
  if parameters.length < arguments.length then
    .error (report (.tooManyArguments (arguments.length - parameters.length) name))
  else if arguments.length < parameters.length then
    .error (report (.tooFewArguments (parameters.length - arguments.length) name))
  else .ok ()

/-- Binds names to values, which from then on belong to the context of the call. -/
def bindAll (context : Context) : List (String × Slot) → Activity Unit
  | [] => return ()
  | (name, slot) :: rest => do
      let id ← objectAt slot
      setContext id context
      assign context name id
      bindAll context rest

def overrideDefault (names : List String) (values : Array Slot) (given : String × Slot) :
    Array Slot :=
  match names.findIdx? (· = given.1) with
  | some place => values.setIfInBounds place given.2
  | none => values

/-- Replaces the default of each named parameter by a given value, for this call and all
that follow. -/
def overrideDefaults (names : List String) (given : List (String × Slot)) (values : Array Slot) :
    Array Slot :=
  given.foldl (overrideDefault names) values

def conduct (self : Evaluator) (function : Object) (closure : Closure)
    (arguments : List ObjectId) (context : Context) : Eval Slot := do
  Eval.ofFault (checkCount closure.name function closure.parameters arguments)
  bindAll context (closure.parameters.zip (arguments.map .object))
  let values := (← store).defaultValues closure.defaults
  bindAll context (closure.optional.zip values.toList)
  match ← (self closure.body context).observe with
  | .ok id => return .object (if closure.yields then id else Store.nullId)
  | .error (.returned id) => return .object id
  | .error other => throw other

def callFunction (self : Evaluator) (function : Object) (closure : Closure)
    (arguments : List ObjectId) (given : List (String × Slot)) : Eval Slot := do
  let context ← callContext closure.name function
  changeStore (·.modifyDefaults closure.defaults (overrideDefaults closure.optional given))
  conduct self function closure arguments context

/-! ### Loading scripts -/

/-- Runs a source in the table of a module, or in the global one if the name is empty.  There is no
result if a return, continue or break reached the outermost level. -/
def runSource (self : Evaluator) (source : Source) (moduleName : String) :
    Activity (Except Fault (Option ObjectId)) := do
  match Lexer.read source with
  | .crashed cause => crash cause
  | .refused cause start stop => return .error (.ofText cause start stop)
  | .tokens tokens =>
      match ← settle (Grammar.run Grammar.script tokens) with
      | (.failure fault, _) => return .error (.ofSyntax fault)
      | (.success tree, _) =>
          let table ←
            if moduleName = "" then pure (some (← get).globals) else module? moduleName
          let context : Context := [{ name := "<program>", entered := none, table }]
          match ← (self tree context).run with
          | .ok id => return .ok (some id)
          | .error (.failed fault) => return .error fault
          | .error _ => return .ok none

def isScriptPath (path : String) : Bool :=
  (path.splitOn ".").getLast? == some "kode"

def loadScript (self : Evaluator) (call : Invocation) (path : ObjectId) (moduleName : String) :
    Eval Slot := do
  let text ← call.text none path
  if !isScriptPath text then call.fail .scriptExtension
  else
    match (← get).folder.read text with
    | .error fault => call.fail (.unloadable text (fault.reason text))
    | .ok content =>
        match ← runSource self { name := text, text := content } moduleName with
        | .ok _ => return Library.null
        | .error fault => call.fail (.unfinished text (← part fault.message?))

def renewGlobals : Activity Unit := do
  let table ← addTable { symbols := startingNames }
  modify fun machine => { machine with globals := table }

/-- Runs a script in a fresh global table, which stays in use whatever comes of it. -/
def runScript (self : Evaluator) (call : Invocation) (path : ObjectId) : Eval Slot := do
  renewGlobals
  loadScript self call path ""

/-- Runs a script in a new module table.  What comes of it is passed over. -/
def importScript (self : Evaluator) (call : Invocation) (path name : ObjectId) : Eval Slot := do
  let _ ← call.text (some 0) path
  let moduleName ← call.text (some 1) name
  assign call.context "fn" path
  let table ← addTable { name := some moduleName }
  modify fun machine => { machine with modules := machine.modules ++ [table] }
  let _ ← (loadScript self call path moduleName).observe
  return Library.null

/-! ### Calls -/

def builtinAnswer (self : Evaluator) (call : Invocation) (builtin : Builtin)
    (arguments : List ObjectId) : Eval Slot :=
  match builtin, arguments with
  | .run, [path] => runScript self call path
  | .importAs, [path, name] => importScript self call path name
  | _, _ => Library.answer call builtin arguments

def serve (self : Evaluator) (function : Object) (name : String) (arguments : List ObjectId)
    (context : Context) : Eval Slot := do
  let builtin ← part (Builtin.ofName? name)
  Eval.ofFault (checkCount name function builtin.parameters arguments)
  bindAll context (builtin.parameters.zip (arguments.map .object))
  builtinAnswer self { start := function.start, stop := function.stop, context } builtin arguments

def callBuiltin (self : Evaluator) (function : Object) (name : String)
    (arguments : List ObjectId) : Eval Slot := do
  let context ← callContext name function
  serve self function name arguments context

def execute (self : Evaluator) : Executor := fun function arguments given =>
  match function.payload with
  | .function closure => callFunction self function closure arguments given
  | .builtin name => callBuiltin self function name arguments
  | _ => crash .missingPart

def optionalNames : Payload → Activity (List String)
  | .function closure => return closure.optional
  | .builtin _ => return []
  | _ => crash .missingPart

/-- The values given to optional parameters, which must be known.  Interruptions are passed
over. -/
def givenValues (self : Evaluator) (context : Context) (known : List String) :
    List (String × Script) → Eval (List (String × Slot))
  | [] => return []
  | (name, value) :: rest => do
      if name ∈ known then
        let slot := settled (← (self value context).observe)
        return (name, slot) :: (← givenValues self context known rest)
      else crash .missingPart

/-- A call: the callee is evaluated first and claimed by the call, then the arguments. -/
def callValue (self : Evaluator) (execute : Executor) (span : Span) (callee : Script)
    (arguments : List Script) (optional : List (String × Script)) (context : Context) :
    Eval ObjectId := do
  let called ← copy (← self callee context)
  setPlace called span
  let values ← arguments.mapM fun argument => self argument context
  let known ← optionalNames (← object called).payload
  let given ← givenValues self context known optional
  let result ← execute (← object called) values given
  retrieve span context (← objectAt result)

def returnValue (self : Evaluator) (value : Option Script) (context : Context) : Eval ObjectId := do
  match value with
  | some value => throw (.returned (← self value context))
  | none => throw (.returned Store.nullId)

/-! ### All trees -/

def step (limits : Limits) (self : Evaluator) (execute : Executor) : Evaluator
  | .number span literal, context => make (.number literal.scalar) span context
  | .string span text, context => make (.text text) span context
  | .list span items, context => listValue self span items context
  | .dict span entries, context => dictValue self span entries context
  | .access span name owner, context => accessValue span name owner context
  | .assign _ name value, context => assignValue self name value context
  | .binary span op left right, context => binaryValue self span op left right context
  | .unary span op operand, context => unaryValue self span op operand context
  | .branch _ cases otherwise, context => branchValue self context otherwise cases
  | .count span name first limit step body block, context =>
      countValue limits self span name first limit step body block context
  | .each span name collection body block, context =>
      eachValue limits self span name collection body block context
  | .loop span condition body block, context => do
      let values ← loopRounds self condition body context limits.rounds []
      loopValue span block context values
  | .function span name parameters optional body yields, context =>
      functionValue self span name parameters optional body yields context
  | .call span callee arguments optional, context =>
      callValue self execute span callee arguments optional context
  | .giveBack _ value, context => returnValue self value context
  | .skip _, _ => throw .skipped
  | .leave _, _ => throw .left

def atDepth (limits : Limits) : Nat → Evaluator
  | 0 => fun _ _ => crash .tooDeep
  | depth + 1 => step limits (atDepth limits depth) (execute (atDepth limits depth))

def limited (limits : Limits) : Evaluator :=
  atDepth limits limits.depth

end Evaluator

def Limits.standard : Limits :=
  { depth := 1750, rounds := 2 ^ (60 : Nat) }

def Machine.run (limits : Limits) (source : Source) (moduleName : String) :
    Activity (Except Fault (Option ObjectId)) :=
  Evaluator.runSource (Evaluator.limited limits) source moduleName

end Lingo
