/-
Workloads for running scripts.
-/

import Lingo.Workload.Basic

namespace Lingo.Workload

open Activity

def expressions : List String :=
  ["(2 + 4) / 6", "-7 + 5", "7 % 3", "3 > 2 and not 0", "\"ab\" + \"cd\"", "\"xy\" * 3",
    "[1, 2, 3] / 1", "var a = 3\na"]

def arithmetic : Workload where
  size := 40
  run size := return .series (← (cycled expressions size).mapM (answerText "<b>"))

def controlScript (size : Nat) : String :=
  let limit := toString size
  script
    ["var total = 0", "for i = 0 to " ++ limit ++ ": var total = total + i",
      "for i = 0 to " ++ limit ++ ":", "  if i == 0:", "    continue", "  end",
      "  var total = total + 1", "end",
      "var k = 0",
      "while k < " ++ limit ++ ":", "  var k = k + 1", "  if k == 2:", "    continue", "  end",
      "  var total = total + 1", "end",
      "if total < 0:", "  var total = 0", "elif total == 1:", "  total", "else:", "  1", "end",
      "func sq(x) -> x * x", "func add(a, b, c=10) -> a + b + c",
      "func blk(x) \x7b", "  return x - 1", "\x7d",
      "var p = sq(8) + blk(6)", "var q = add(1, 100)", "var d = \x7b\"a\": 9, \"b\": 2\x7d",
      "total + p + q + 3"]

def controlFlow : Workload where
  size := 30
  run size := do
    Evaluator.renewGlobals
    match ← runText "<b>" (controlScript size) with
    | .ok value => return .series [← valueAnswer value, .nothing]
    | .error fault => return .series [.nothing, faultAnswer fault]

def builtinScript : String :=
  script
    ["var l = [1, 2, 3]", "append(l, 4)", "set(l, 2, 9)", "pop(l, 2)", "extend(l, [5, 6])",
      "get(l, 0)", "len(l)", "is_string(l)",
      "var d = \x7b\"a\": 1, \"b\": 2\x7d", "set(d, \"a\", 10)", "set(d, \"c\", 30)",
      "get(d, \"a\")", "has_key(d, \"b\")", "has_key(d, \"z\")",
      "concat(\"foo\", \"bar\")", "split_char(\"a,b,c\", \",\")", "slice(\"abcdef\", 1, 4)",
      "frequency(\"banana\", \"a\")", "findIndex(\"hello\", \"l\")",
      "to_int(\"42\")", "to_str([1, 2])", "to_int(17.9)", "to_float(\"2.5\")",
      "abs(-7)", "min(3, 9)", "max(3, 9)", "oct(8)", "fact(5)", "sort([3, 1, 2])", "range(0, 5)",
      "is_prime(1)", "is_prime(2)", "is_prime(4)", "is_prime(9)", "is_prime(7)",
      "is_number(1)", "is_number(\"a\")", "is_string(\"a\")", "is_string(1)",
      "is_list([1])", "is_list(1)", "is_function(print)", "is_function(1)",
      "var s = 20", "True", "False", "None", "s + fact(5) + 38"]

def builtins : Workload where
  size := 20
  run size := return .series (← (List.replicate size builtinScript).mapM (answerText "<b>"))

def failingTexts : List String :=
  ["1 + \"x\"", "1 - \"x\"", "1 * \"x\"", "1 / \"x\"", "1 // \"x\"", "1 % \"x\"", "1 ^ \"x\"",
    "1 == \"x\"", "1 != \"x\"", "1 < \"x\"", "1 > \"x\"", "1 <= \"x\"", "1 >= \"x\"",
    "1 and \"x\"", "1 or \"x\"", "\"a\" + 1", "\"a\" * \"b\"", "\"a\" - 1", "not \"a\"",
    "1 / 0", "1 // 0", "1 % 0", "[1,2] / 5", "[1,2] / \"x\"", "[1] - 1", "undefinedName",
    "nope.func", "len(1)", "len(1, 2)", "abs(\"x\")", "abs()", "append(1, 2)", "pop(1, 2)",
    "pop([1], \"x\")", "pop([1], 9)", "extend(1, [1])", "extend([1], 1)", "get(1, 0)",
    "get([1], \"x\")", "get([1], 9)", "get(\x7b\"a\":1\x7d, 1)", "get(\x7b\"a\":1\x7d, \"zz\")",
    "set(1, 0, 0)", "set([1], \"x\", 0)", "set([1], 9, 0)", "set(\x7b\"a\":1\x7d, 1, 0)",
    "concat(1, \"a\")", "concat(\"a\", 1)", "split_char(1, \"a\")", "split_char(\"a\", 1)",
    "split_char(\"a\", \"bc\")", "slice(1, 0, 1)", "slice(\"ab\", \"x\", 1)",
    "slice(\"ab\", 0, \"x\")", "slice(\"ab\", 5, 6)", "slice(\"abcdef\", 0, 99)",
    "slice(\"abc\", 2, 1)", "frequency(1, \"a\")", "frequency(\"a\", 1)",
    "frequency(\"a\", \"bc\")", "findIndex(1, \"a\")", "findIndex(\"a\", 1)",
    "findIndex(\"a\", \"bc\")", "insert(1, 0, \"x\")", "insert([1], \"x\", \"y\")",
    "insert([1], 99, \"x\")", "has_key(1, \"a\")", "has_key(\x7b\"a\":1\x7d, 1)",
    "range(\"a\", 1)", "range(1, \"a\")", "min(\"a\", 1)", "min(1, \"a\")", "max(\"a\", 1)",
    "max(1, \"a\")", "oct(\"a\")", "fact(\"a\")", "sort(1)", "is_prime(\"a\")", "is_prime(1.5)",
    "is_prime(-3)", "to_int(\"nope\")", "to_float(\"nope\")", "to_str(len)", "run(1)",
    "run(\"foo.txt\")", "run(\"missing_zz.kode\")", "importAs(1, \"m\")", "importAs(\"x\", 1)",
    "func dup() -> 1; func dup() -> 2", "(func () -> 1) + 1"]

def runningErrors : Workload where
  size := 90
  run size := return .series (← (cycled failingTexts size).mapM (answerText "<re>"))

def loadingFiles : Folder :=
  .ofFiles
    [("lib.kode", "func plus(x) -> x + 100\n"), ("main.kode", "var t = 1\n"),
      ("bad.kode", "var ok = 1\nunknownName\n")]

def loadingRound : Activity (List Answer) := do
  let used ← answerText "<b>"
    (script ["importAs(\"lib.kode\", \"lib\")", "lib.plus(10)", "var y = lib.plus(10)"])
  let good ← runText "<b>" (Shell.runCommand "main.kode")
  let bad ← runText "<b>" (Shell.runCommand "bad.kode")
  return [used, .flag good.isOk, .flag !bad.isOk]

def loading : Workload where
  size := 10
  run size := do
    modify fun machine => { machine with folder := loadingFiles }
    return .series (← rounds loadingRound size)

end Lingo.Workload
