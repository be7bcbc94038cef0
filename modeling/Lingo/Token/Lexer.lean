/-
Reading a text into tokens, one character at a time.

A character that cannot go on with a token ends it and begins the next.
-/

import Lingo.Token.Basic

namespace Lingo

inductive LexCause where
  | illegal (char : Char)
  | lonelyBang
  | openComment
deriving DecidableEq, Repr, Inhabited

def LexCause.details : LexCause → String
  | illegal char => "'" ++ char.toString ++ "'"
  | lonelyBang => "Expected '=' after '!'"
  | openComment => "Expected '/@'. Instead found the end of the file"

namespace Lexer

/-- What the characters read last belong to.  A mode that holds a token under way
knows where it began; characters are kept in reverse. -/
inductive Mode where
  | between
  | digits (start : Mark) (read : List Char)
  | fraction (start : Mark) (whole read : List Char)
  | word (start : Mark) (read : List Char)
  | quote (start : Mark) (read : List Char)
  | bang (start : Mark)
  | assign (start : Mark)
  | less (start : Mark)
  | greater (start : Mark)
  | slash (start : Mark)
  | minus (start : Mark)
  | commentStart
  | lineComment
  | blockComment
  | blockSlash
deriving DecidableEq, Repr, Inhabited

inductive Status where
  | reading (mode : Mode)
  | refused (cause : LexCause) (start stop : Mark)
  | crashed (crash : Crash)
deriving DecidableEq, Repr, Inhabited

structure State where
  status : Status
  mark : Mark
  tokens : List (Token × Mark)
deriving Repr, Inhabited

def State.start : State :=
  { status := .reading .between, mark := .origin, tokens := [] }

def isLetter (char : Char) : Bool :=
  char.isAlpha

def isWordChar (char : Char) : Bool :=
  char.isAlphanum || char == '_'

def single? : Char → Option Token
  | ';' => some .newline
  | '\n' => some .newline
  | '+' => some (.symbol .plus)
  | '*' => some (.symbol .times)
  | '%' => some (.symbol .remainder)
  | '^' => some (.symbol .power)
  | '(' => some (.symbol .leftParen)
  | ')' => some (.symbol .rightParen)
  | '[' => some (.symbol .leftSquare)
  | ']' => some (.symbol .rightSquare)
  | '{' => some (.symbol .leftCurly)
  | '}' => some (.symbol .rightCurly)
  | ':' => some (.symbol .colon)
  | ',' => some (.symbol .comma)
  | '.' => some (.symbol .dot)
  | _ => none

def opening? (mark : Mark) (char : Char) : Option Mode :=
  if char = ' ' ∨ char = '\t' then some .between
  else if char = '@' then some .commentStart
  else if char.isDigit then some (.digits mark [char])
  else if isLetter char then some (.word mark [char])
  else if char = '"' then some (.quote mark [])
  else if char = '-' then some (.minus mark)
  else if char = '/' then some (.slash mark)
  else if char = '!' then some (.bang mark)
  else if char = '=' then some (.assign mark)
  else if char = '<' then some (.less mark)
  else if char = '>' then some (.greater mark)
  else none

def State.begin (state : State) (char : Char) : State :=
  let after := state.mark.after char
  match single? char with
  | some token =>
      { status := .reading .between, mark := after, tokens := (token, state.mark) :: state.tokens }
  | none =>
      match opening? state.mark char with
      | some mode => { state with status := .reading mode, mark := after }
      | none => { state with status := .refused (.illegal char) state.mark after, mark := after }

def State.emit (state : State) (token : Token) (start : Mark) : State :=
  { state with status := .reading .between, tokens := (token, start) :: state.tokens }

def State.emitInt (state : State) (start : Mark) (read : List Char) : State :=
  if Numeral.digitLimit < read.length then { state with status := .crashed .unreadable }
  else state.emit (.int (Text.number read.reverse)) start

def fractionValue (whole read : List Char) : Float :=
  Numeral.ofDigits false (whole.reverse ++ read.reverse) (-(read.length : Int))

def wordToken (word : String) : Token :=
  match Keyword.ofSpelling? word with
  | some keyword => .keyword keyword
  | none => .identifier word

def State.stay (state : State) (mode : Mode) (char : Char) : State :=
  { state with status := .reading mode, mark := state.mark.after char }

def State.close (state : State) (token : Token) (start : Mark) (char : Char) : State :=
  { status := .reading .between
    mark := state.mark.after char
    tokens := (token, start) :: state.tokens }

def State.beginIfReading (state : State) (char : Char) : State :=
  match state.status with
  | .reading _ => state.begin char
  | _ => state

/-- Ends a symbol: the long one if the character is its second, else the short one,
and the character begins the next token. -/
def State.symbol (state : State) (start : Mark) (second : Char) (long short : Symbol)
    (char : Char) : State :=
  if char = second then state.close (.symbol long) start char
  else (state.emit (.symbol short) start).begin char

def State.feedIn (state : State) (char : Char) : Mode → State
  | .between => state.begin char
  | .digits start read =>
      if char.isDigit then state.stay (.digits start (char :: read)) char
      else if char = '.' then state.stay (.fraction start read []) char
      else (state.emitInt start read).beginIfReading char
  | .fraction start whole read =>
      if char.isDigit then state.stay (.fraction start whole (char :: read)) char
      else (state.emit (.float (fractionValue whole read)) start).begin char
  | .word start read =>
      if isWordChar char then state.stay (.word start (char :: read)) char
      else (state.emit (wordToken (String.ofList read.reverse)) start).begin char
  | .quote start read =>
      if char = '"' then state.close (.string (String.ofList read.reverse)) start char
      else if char = '\\' then state.stay (.quote start read) char
      else state.stay (.quote start (char :: read)) char
  | .bang start =>
      if char = '=' then state.close (.symbol .notEqual) start char
      else
        let after := state.mark.after char
        { state with status := .refused .lonelyBang start after, mark := after }
  | .assign start => state.symbol start '=' .equal .assign char
  | .less start => state.symbol start '=' .lessEqual .less char
  | .greater start => state.symbol start '=' .greaterEqual .greater char
  | .slash start => state.symbol start '/' .floorDivide .divide char
  | .minus start => state.symbol start '>' .arrow .minus char
  | .commentStart =>
      if char = '/' then state.stay .blockComment char
      else if char = '\n' then state.stay .between char
      else state.stay .lineComment char
  | .lineComment => state.stay (if char = '\n' then .between else .lineComment) char
  | .blockComment => state.stay (if char = '/' then .blockSlash else .blockComment) char
  | .blockSlash =>
      if char = '@' then state.stay .commentStart char
      else if char = '/' then state.stay .blockSlash char
      else state.stay .blockComment char

def State.feed (state : State) (char : Char) : State :=
  match state.status with
  | .reading mode => state.feedIn char mode
  | _ => state

def State.finishIn (state : State) : Mode → State
  | .between => state
  | .digits start read => state.emitInt start read
  | .fraction start whole read => state.emit (.float (fractionValue whole read)) start
  | .word start read => state.emit (wordToken (String.ofList read.reverse)) start
  | .quote start read =>
      { (state.emit (.string (String.ofList read.reverse)) start) with mark := state.mark.next }
  | .bang start =>
      { state with status := .refused .lonelyBang start state.mark.next, mark := state.mark.next }
  | .assign start => state.emit (.symbol .assign) start
  | .less start => state.emit (.symbol .less) start
  | .greater start => state.emit (.symbol .greater) start
  | .slash start => state.emit (.symbol .divide) start
  | .minus start => state.emit (.symbol .minus) start
  | .commentStart => state
  | .lineComment => state
  | .blockComment => { state with status := .refused .openComment state.mark state.mark }
  | .blockSlash => { state with status := .refused .openComment state.mark state.mark }

def State.finish (state : State) : State :=
  match state.status with
  | .reading mode => state.finishIn mode
  | _ => state

def scan (chars : List Char) : State :=
  (chars.foldl State.feed .start).finish

inductive Result where
  | tokens (tokens : List Placed)
  | refused (cause : LexCause) (start stop : Position)
  | crashed (crash : Crash)
deriving Repr, Inhabited

/-- Places a token: it stops behind its first character or at the end of the text. -/
def place (source : Source) (final : Mark) (token : Token) (start : Mark) : Placed :=
  { token
    start := { source, mark := start }
    stop := { source, mark := if token.isSingle then start.next else final } }

def read (source : Source) : Result :=
  let state := scan source.text.toList
  match state.status with
  | .reading _ =>
      .tokens (((.eof, state.mark) :: state.tokens).reverse.map fun (token, start) =>
        place source state.mark token start)
  | .refused cause start stop =>
      .refused cause { source, mark := start } { source, mark := stop }
  | .crashed crash => .crashed crash

end Lexer

end Lingo
