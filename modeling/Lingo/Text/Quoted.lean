/-
Texts between quotes.

Single quotes are used unless the text has a single quote and no double quote.
-/

import Lingo.Text.Printable

namespace Lingo.Text

def hexadecimal (width n : Nat) : List Char :=
  let digits := Nat.toDigits 16 n
  List.replicate (width - digits.length) '0' ++ digits

def escapeNumber (n : Nat) : List Char :=
  if n < 0x100 then '\\' :: 'x' :: hexadecimal 2 n
  else if n < 0x10000 then '\\' :: 'u' :: hexadecimal 4 n
  else '\\' :: 'U' :: hexadecimal 8 n

def quoteChar (shown : Char → Bool) (quote char : Char) : List Char :=
  if char = quote ∨ char = '\\' then ['\\', char]
  else if char = '\n' then ['\\', 'n']
  else if char = '\r' then ['\\', 'r']
  else if char = '\t' then ['\\', 't']
  else if shown char then [char]
  else escapeNumber char.toNat

def quoteFor (chars : List Char) : Char :=
  if '\'' ∈ chars ∧ '"' ∉ chars then '"' else '\''

def quotedBy (shown : Char → Bool) (text : String) : String :=
  let chars := text.toList
  let quote := quoteFor chars
  String.ofList (quote :: (chars.flatMap (quoteChar shown quote) ++ [quote]))

def quoted (text : String) : String :=
  quotedBy isPrintable text

def quotedAscii (text : String) : String :=
  quotedBy (fun char => decide (0x20 ≤ char.toNat ∧ char.toNat < 0x7f)) text

end Lingo.Text
