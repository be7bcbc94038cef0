/-
The names that every script knows from the start.
-/

import Lingo.Eval.Machine

namespace Lingo

inductive Builtin where
  | print | input | clear
  | isNumber | isString | isList | isFunction
  | append | set | pop | extend | get
  | run | len | toStr | toInt | toFloat
  | concat | splitChar | slice | frequency | findIndex | insert
  | importAs | abs | hasKey | range | min | max | oct | fact | sort | isPrime
deriving DecidableEq, Repr, Inhabited

namespace Builtin

def all : List Builtin :=
  [.print, .input, .clear, .isNumber, .isString, .isList, .isFunction, .append, .set, .pop,
    .extend, .get, .run, .len, .toStr, .toInt, .toFloat, .concat, .splitChar, .slice, .frequency,
    .findIndex, .insert, .importAs, .abs, .hasKey, .range, .min, .max, .oct, .fact, .sort,
    .isPrime]

def name : Builtin → String
  | print => "print"
  | input => "input"
  | clear => "clear"
  | isNumber => "is_number"
  | isString => "is_string"
  | isList => "is_list"
  | isFunction => "is_function"
  | append => "append"
  | set => "set"
  | pop => "pop"
  | extend => "extend"
  | get => "get"
  | run => "run"
  | len => "len"
  | toStr => "to_str"
  | toInt => "to_int"
  | toFloat => "to_float"
  | concat => "concat"
  | splitChar => "split_char"
  | slice => "slice"
  | frequency => "frequency"
  | findIndex => "findIndex"
  | insert => "insert"
  | importAs => "importAs"
  | abs => "abs"
  | hasKey => "has_key"
  | range => "range"
  | min => "min"
  | max => "max"
  | oct => "oct"
  | fact => "fact"
  | sort => "sort"
  | isPrime => "is_prime"

def parameters : Builtin → List String
  | print | isNumber | isString | isList | isFunction | toStr => ["value"]
  | input | clear => []
  | append => ["list", "value"]
  | set => ["list", "index", "value"]
  | pop | get => ["list", "index"]
  | extend => ["listA", "listB"]
  | run => ["fn"]
  | len | sort => ["list"]
  | toInt | toFloat | abs | oct | fact | isPrime => ["number"]
  | concat => ["string1", "string2"]
  | splitChar | frequency | findIndex => ["string", "char"]
  | slice => ["string", "start", "end"]
  | insert => ["list", "index", "char"]
  | importAs => ["path", "name"]
  | hasKey => ["d", "key"]
  | range => ["begin", "end"]
  | min => ["numberA", "numberB"]
  | max => ["a", "b"]

def ofName? (name : String) : Option Builtin :=
  all.find? (·.name = name)

end Builtin

/-- The objects that are there before any script runs: the three constants, which are at
the addresses `nullId`, `falseId` and `trueId`, and the functions of the language. -/
def initialObjects : List Object :=
  [{ payload := .number (.int 0) }, { payload := .number (.int 0) },
    { payload := .number (.int 1) }] ++
  Builtin.all.map fun builtin => { payload := .builtin builtin.name }

/-- The names that every fresh global table holds.  One of them has no value. -/
def startingNames : List (String × Option ObjectId) :=
  [("None", some Store.nullId), ("False", some Store.falseId), ("True", some Store.trueId),
    ("amigo", none)] ++
  Builtin.all.zipIdx.map fun (builtin, n) => (builtin.name, some ⟨n + 3⟩)

def Store.initial : Store :=
  { objects := ⟨initialObjects.toArray⟩, tables := ⟨#[{ symbols := startingNames }]⟩ }

def Machine.initial (folder : Folder) (input : List String) : Machine :=
  { store := .initial, globals := ⟨0⟩, folder, input }

end Lingo
