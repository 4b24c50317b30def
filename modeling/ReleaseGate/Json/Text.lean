import ReleaseGate.Text.Quoted

/-!
Strings in JSON text. Writing escapes the double quote, the backslash and the control characters
below the space, and nothing else; reading takes every escape of the standard and says why a text is
refused. Code units of a surrogate pair are read as the one character they stand for, and one that
is not half of a pair as a code point of its own.
-/

namespace ReleaseGate.Json

inductive StringFault where
  | unterminated
  | invalidEscape
  | invalidHexEscape
  | controlCharacter
  deriving DecidableEq

def StringFault.message : StringFault → Text
  | .unterminated => "Unterminated string starting at"
  | .invalidEscape => "Invalid \\escape"
  | .invalidHexEscape => "Invalid \\uXXXX escape"
  | .controlCharacter => "Invalid control character at"

def escapedChar (c : CodePoint) : List CodePoint :=
  if c = '"' then ['\\', '"']
  else if c = '\\' then ['\\', '\\']
  else if c = '\n' then ['\\', 'n']
  else if c = '\r' then ['\\', 'r']
  else if c = '\t' then ['\\', 't']
  else if c = '\x08' then ['\\', 'b']
  else if c = '\x0c' then ['\\', 'f']
  else if c < ' ' then '\\' :: 'u' :: (Text.hexDigits 4 c.toNat).map .char
  else [c]

def writeString (s : List CodePoint) : List CodePoint :=
  '"' :: (s.flatMap escapedChar ++ [.char '"'])

def hexValue? (c : CodePoint) : Option Nat :=
  if '0' ≤ c ∧ c ≤ '9' then some (c.toNat - '0'.toNat)
  else if 'a' ≤ c ∧ c ≤ 'f' then some (c.toNat - 'a'.toNat + 10)
  else if 'A' ≤ c ∧ c ≤ 'F' then some (c.toNat - 'A'.toNat + 10)
  else none

def codeUnit? (a b c d : CodePoint) : Option Nat := do
  return ((← hexValue? a) * 16 + (← hexValue? b)) * 256 + (← hexValue? c) * 16 + (← hexValue? d)

/-- The character after a backslash, for the escapes of one letter. -/
def shortEscape? : CodePoint → Option CodePoint
  | '"' => some '"'
  | '\\' => some '\\'
  | '/' => some '/'
  | 'b' => some '\x08'
  | 'f' => some '\x0c'
  | 'n' => some '\n'
  | 'r' => some '\r'
  | 't' => some '\t'
  | _ => none

def isHighUnit (n : Nat) : Bool := 0xD800 ≤ n && n ≤ 0xDBFF

def isLowUnit (n : Nat) : Bool := 0xDC00 ≤ n && n ≤ 0xDFFF

def pairedChar (high low : Nat) : Char :=
  Char.ofNat (0x10000 + (high - 0xD800) * 0x400 + (low - 0xDC00))

abbrev Reading := Except StringFault (List CodePoint × List CodePoint)

def Reading.push (c : CodePoint) (r : Reading) : Reading :=
  r.map fun p => (c :: p.1, p.2)

/-- Reads up to the closing quote; gives the text and what follows it. -/
def readString : List CodePoint → Reading
  | [] => .error .unterminated
  | '"' :: rest => .ok ([], rest)
  | '\\' :: 'u' :: a :: b :: c :: d :: rest =>
      match codeUnit? a b c d with
      | none => .error .invalidHexEscape
      | some high =>
          let alone := (readString rest).push (.ofNat high)
          if isHighUnit high then
            match rest with
            | '\\' :: 'u' :: e :: f :: g :: h :: later =>
                match codeUnit? e f g h with
                | none => .error .invalidHexEscape
                | some low =>
                    if isLowUnit low then (readString later).push (pairedChar high low) else alone
            | _ => alone
          else alone
  | '\\' :: 'u' :: _ => .error .invalidHexEscape
  | '\\' :: c :: rest =>
      match shortEscape? c with
      | none => .error .invalidEscape
      | some d => (readString rest).push d
  | ['\\'] => .error .unterminated
  | c :: rest => if c < ' ' then .error .controlCharacter else (readString rest).push c

theorem push_eq_ok {c : CodePoint} {r : Reading} {s t : List CodePoint}
    (h : r.push c = .ok (s, t)) :
    ∃ s', s = c :: s' ∧ r = .ok (s', t) := by
  cases r with
  | error e => cases h
  | ok p =>
      injection h with h
      injection h with hs ht
      exact ⟨p.1, hs.symm, by rw [← ht]⟩

theorem readString_length {s t rest : List CodePoint} (h : readString s = .ok (t, rest)) :
    rest.length < s.length := by
  fun_induction readString s generalizing t with
  | case1 | case3 | case4 | case9 | case10 | case12 | case13 => cases h
  | case2 => injection h with h; injection h with _ h; simp [h]
  | case5 | case6 | case7 | case8 | case11 | case14 =>
      rename_i ih
      obtain ⟨_, _, hr⟩ := push_eq_ok h
      have := ih hr
      simp only [List.length_cons] at *
      omega

end ReleaseGate.Json
