/-
Tokens: the words of a script.
-/

import Lingo.Scalar.Order
import Lingo.Source.Position

namespace Lingo

inductive Keyword where
  | varWord | andWord | orWord | notWord | ifWord | thenWord | elifWord | elseWord | forWord
  | whileWord | stepWord | toWord | funcWord | endWord | breakWord | returnWord | continueWord
  | inWord
deriving DecidableEq, Repr, Inhabited

namespace Keyword

def all : List Keyword :=
  [.varWord, .andWord, .orWord, .notWord, .ifWord, .thenWord, .elifWord, .elseWord, .forWord,
    .whileWord, .stepWord, .toWord, .funcWord, .endWord, .breakWord, .returnWord, .continueWord,
    .inWord]

def spelling : Keyword → String
  | .varWord => "var"
  | .andWord => "and"
  | .orWord => "or"
  | .notWord => "not"
  | .ifWord => "if"
  | .thenWord => "then"
  | .elifWord => "elif"
  | .elseWord => "else"
  | .forWord => "for"
  | .whileWord => "while"
  | .stepWord => "step"
  | .toWord => "to"
  | .funcWord => "func"
  | .endWord => "end"
  | .breakWord => "break"
  | .returnWord => "return"
  | .continueWord => "continue"
  | .inWord => "in"

def ofSpelling? (word : String) : Option Keyword :=
  all.find? (·.spelling = word)

end Keyword

inductive Symbol where
  | plus | minus | times | divide | floorDivide | remainder | power
  | assign | equal | notEqual | less | greater | lessEqual | greaterEqual
  | leftParen | rightParen | leftSquare | rightSquare | leftCurly | rightCurly
  | comma | colon | arrow | dot
deriving DecidableEq, Repr, Inhabited

namespace Symbol

def spelling : Symbol → String
  | plus => "+"
  | minus => "-"
  | times => "*"
  | divide => "/"
  | floorDivide => "//"
  | remainder => "%"
  | power => "^"
  | assign => "="
  | equal => "=="
  | notEqual => "!="
  | less => "<"
  | greater => ">"
  | lessEqual => "<="
  | greaterEqual => ">="
  | leftParen => "("
  | rightParen => ")"
  | leftSquare => "["
  | rightSquare => "]"
  | leftCurly => "\x7b"
  | rightCurly => "\x7d"
  | comma => ","
  | colon => ":"
  | arrow => "->"
  | dot => "."

def label : Symbol → String
  | plus => "PLUS"
  | minus => "MINUS"
  | times => "MUL"
  | divide => "DIV"
  | floorDivide => "INT_DIV"
  | remainder => "REMAINDER"
  | power => "POW"
  | assign => "EQ"
  | equal => "EE"
  | notEqual => "NE"
  | less => "LT"
  | greater => "GT"
  | lessEqual => "LTE"
  | greaterEqual => "GTE"
  | leftParen => "LPAREN"
  | rightParen => "RPAREN"
  | leftSquare => "LSQUARE"
  | rightSquare => "RSQUARE"
  | leftCurly => "LCURLY"
  | rightCurly => "RCURLY"
  | comma => "COMMA"
  | colon => "COLON"
  | arrow => "ARROW"
  | dot => "DOT"

/-- Whether a symbol stops right behind its one character.  The others might have
been longer when they were begun, and claim the text to its end. -/
def isSingle : Symbol → Bool
  | minus | divide | floorDivide | assign | equal | notEqual | less | greater | lessEqual
  | greaterEqual | arrow => false
  | _ => true

end Symbol

inductive Token where
  | int (n : Nat)
  | float (x : Float)
  | string (text : String)
  | identifier (name : String)
  | keyword (word : Keyword)
  | symbol (symbol : Symbol)
  | newline
  | eof
deriving Repr, Inhabited

namespace Token

def label : Token → String
  | int _ => "INT"
  | float _ => "FLOAT"
  | string _ => "STRING"
  | identifier _ => "IDENTIFIER"
  | keyword _ => "KEYWORD"
  | symbol s => s.label
  | newline => "NEWLINE"
  | eof => "EOF"

def value? : Token → Option Scalar
  | int n => some (.int n)
  | float x => some (.float x)
  | string text => some (.text text)
  | identifier name => some (.text name)
  | keyword word => some (.text word.spelling)
  | symbol _ => none
  | newline => none
  | eof => none

def listing (label : String) (value : Option Scalar) : Except Crash String :=
  match value with
  | some scalar =>
      if scalar.isTruthy then do return label ++ ":" ++ (← scalar.display) else .ok label
  | none => .ok label

def display (token : Token) : Except Crash String :=
  listing token.label token.value?

def holds (label wantedLabel : String) (value wanted : Option Scalar) : Bool :=
  label == wantedLabel &&
    match value, wanted with
    | some a, some b => a.equals b
    | none, none => true
    | _, _ => false

def isSingle : Token → Bool
  | symbol s => s.isSingle
  | newline => true
  | eof => true
  | _ => false

def isSymbol (token : Token) (wanted : Symbol) : Bool :=
  match token with
  | symbol s => s == wanted
  | _ => false

def isKeyword (token : Token) (wanted : Keyword) : Bool :=
  match token with
  | keyword word => word == wanted
  | _ => false

def isNewline : Token → Bool
  | newline => true
  | _ => false

def isEof : Token → Bool
  | eof => true
  | _ => false

end Token

structure Placed where
  token : Token
  start : Position
  stop : Position
deriving Repr, Inhabited

end Lingo
