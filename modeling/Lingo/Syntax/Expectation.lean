/-
What the reader of a script expected where it had to stop.
-/

namespace Lingo

inductive Expectation where
  | operator
  | statement
  | expression
  | comparison
  | atom
  | argument
  | argumentValue
  | element
  | entryValue
  | key
  | name
  | memberName
  | assignment
  | argumentAssignment
  | colon
  | openParen
  | closeParen
  | openSquare
  | openCurly
  | closeCurly
  | commaOrParen
  | commaOrSquare
  | commaOrCurly
  | nameOrOpenParen
  | nameOrCloseParen
  | arrowOrLine
  | keyword (spelling : String)
deriving DecidableEq, Repr, Inhabited

def Expectation.details : Expectation → String
  | operator => "Expected '+', '-', '*' or '/'"
  | statement =>
      "Expected 'break', 'continue', 'return', 'var', 'if', 'for', 'while', 'func', int, float, " ++
        "identifier, '+', '-', '(', ')' '[' or 'not'"
  | expression =>
      "Expected int or float, identifier, 'var', 'if', 'for', 'while', 'func', '+', '-', '(' or '['"
  | comparison => "Expected int or float, identifier, '+', '-', '(', '[' or 'not'"
  | atom =>
      "Expected int or float, identifier, '+', '-' or '(', , '[', 'if', 'for', 'while' or 'func'"
  | argument =>
      "Expected ')', 'var', 'if', 'for', 'while', 'func', int, float, identifier, '+', '-', '(', " ++
        "'[' or 'not'"
  | argumentValue => "Expected int, float, string or boolean"
  | element =>
      "Expected ']', 'var', 'if', 'for', 'while', 'func', int, float, identifier, '+', '-', '(', " ++
        "'[' or 'not'"
  | entryValue =>
      "Expected 'var', 'if', 'for', 'while', 'func', int, float, identifier, '+', '-', '(', " ++
        "'[' or 'not'"
  | key => "Expected string"
  | name => "Expected identifier"
  | memberName => "Expected an identifier"
  | assignment => "Expected '='"
  | argumentAssignment => "Expected ="
  | colon => "Expected ':'"
  | openParen => "Expected '('"
  | closeParen => "Expected ')'"
  | openSquare => "Expected '['"
  | openCurly => "Expected '\x7b'"
  | closeCurly => "Expected '\x7d'"
  | commaOrParen => "Expected ',' or ')'"
  | commaOrSquare => "Expected ',' or ']'"
  | commaOrCurly => "Expected ',' or '\x7d'"
  | nameOrOpenParen => "Expected identifier or '('"
  | nameOrCloseParen => "Expected identifier or ')'"
  | arrowOrLine => "Expected '->' or a new line"
  | keyword spelling => "Expected '" ++ spelling ++ "'"

end Lingo
