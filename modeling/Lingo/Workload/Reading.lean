/-
Workloads for the reading of scripts.
-/

import Lingo.Workload.Basic

namespace Lingo.Workload

def tokenAnswer (source : Source) : Answer :=
  match Lexer.read source with
  | .tokens tokens => .count tokens.length
  | .refused cause start stop => faultAnswer (.ofText cause start stop)
  | .crashed cause => .ended cause

def tokenUnit : String :=
  script
    ["@ a remark about the lines that follow this one", "var width = 12 + 3.5 * (7 - 2) ^ 2 % 3",
      "if width >= 10: print(\"wide enough\")",
      "var names = \x7b\"first\": [1, 2], \"second\": 3\x7d", ""]

def stretched (unit : String) (size : Nat) : String :=
  String.join (List.replicate ((size + unit.length - 1) / unit.length) unit)

def tokens : Workload where
  size := 4000
  run size :=
    return .series [tokenAnswer { name := "<b>", text := stretched tokenUnit size }, .nothing]

def oddTexts : List String :=
  ["var a = $", "1 !+ 2", "@/ never closed", "1 + 2 - 3"]

def tokenErrors : Workload where
  size := 40
  run size :=
    return .series ((cycled oddTexts size).map fun text => tokenAnswer { name := "<e>", text })

def statementUnit : String :=
  script
    ["var a = 1 + 2 * 3", "var b = (a - 1) ^ 2 // 3 % 4", "not a == b", "a < b and b >= 0 or 1",
      "[1, 2.5, \"three\"]", "\x7b\"key\": [1], \"other\": \x7b\x7d\x7d", "if a: b", "if a: b else: 0",
      "if a:", "  b", "elif b:", "  a", "else:", "  0", "end", "for i = 0 to 3: i",
      "for i = 3 to 0 step -1:", "  continue", "end", "for x in [1, 2]:", "  break", "end",
      "while a < 3: var a = a + 1", "while a < 5:", "  var a = a + 1", "end",
      "func one(x) -> x + 1", "func two(x, y=2) \x7b", "  return x * y", "\x7d",
      "func () -> 0", "one(1)", "two(1, y=3)", "print(a)", "-a", ""]

def statements : Workload where
  size := 30
  run size := do
    let text := String.join (List.replicate size statementUnit)
    match Lexer.read { name := "<b>", text } with
    | .tokens tokens =>
        match ← Activity.settle (Grammar.run Grammar.script tokens) with
        | (.success (.list _ items), _) =>
            return .series [.count items.length, .text "ListNode", .flag false]
        | _ => return .series [.nothing, .nothing, .flag true]
    | _ => return .series [.nothing, .nothing, .flag true]

def brokenTexts : List String :=
  ["1 +", "var = 3", "if 1 2", "for i = 0 3: i", "while", "func (", "[1, 2", "\x7b\"a\" 1\x7d",
    "print(1", ") 2"]

def syntaxErrors : Workload where
  size := 40
  run size := do
    let answers ← (cycled brokenTexts size).mapM fun text => do
      match Lexer.read { name := "<pe>", text } with
      | .tokens tokens =>
          match ← Activity.settle (Grammar.run Grammar.script tokens) with
          | (.failure fault, _) => return faultAnswer (.ofSyntax fault)
          | (.success _, _) => return .nothing
      | _ => return .nothing
    return .series answers

end Lingo.Workload
