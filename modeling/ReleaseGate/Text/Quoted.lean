import ReleaseGate.Text.Basic
import ReleaseGate.Text.Printable

/-!
Quoted text, as messages show a string: single quotes unless the text holds one and no double
quote; a backslash before itself and before the quote in use; escapes for what cannot be printed.
-/

namespace ReleaseGate.Text

def singleQuote : Char := '\x27'

def doubleQuote : Char := '\x22'

/-- Lower-case hexadecimal digits, at least `width` of them. -/
def hexDigits (width n : Nat) : List Char :=
  let ds := Nat.toDigits 16 n
  List.replicate (width - ds.length) '0' ++ ds

def quoteFor (s : List CodePoint) : Char :=
  if s.contains ↑singleQuote && !s.contains ↑doubleQuote then doubleQuote else singleQuote

def hexEscape (n : Nat) : List Char :=
  if n < 0x100 then '\\' :: 'x' :: hexDigits 2 n
  else if n < 0x10000 then '\\' :: 'u' :: hexDigits 4 n
  else '\\' :: 'U' :: hexDigits 8 n

def quotedChar (quote c : Char) : List Char :=
  if c = '\\' ∨ c = quote then ['\\', c]
  else if c = '\n' then ['\\', 'n']
  else if c = '\r' then ['\\', 'r']
  else if c = '\t' then ['\\', 't']
  else if isPrintable c then [c]
  else hexEscape c.toNat

/-- What cannot be printed is escaped, and half a surrogate pair by itself is such a thing. -/
def quotedPoint (quote : Char) : CodePoint → List Char
  | .char c => quotedChar quote c
  | .surrogate u => hexEscape (CodePoint.surrogate u).toNat

def quotedChars (s : List CodePoint) : List Char :=
  quoteFor s :: (s.flatMap (quotedPoint (quoteFor s)) ++ [quoteFor s])

def quoted (s : Text) : String := String.ofList (quotedChars s.toList)

def quotedList (ss : List Text) : String :=
  "[" ++ String.intercalate ", " (ss.map quoted) ++ "]"

end ReleaseGate.Text
