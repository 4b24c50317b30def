import ReleaseGate.Number.Decimal
import ReleaseGate.Text.Blank
import ReleaseGate.Text.DecimalDigit

/-!
Numerals in settings: a sign, digits of any script with an optional point and exponent, or a word
for one of the numbers without digits. An underscore may stand between two digits, and blanks around
it all.
-/

namespace ReleaseGate.Numeral

/-- The blanks that may surround a numeral; the four information separators are none of them. -/
def isMargin (c : CodePoint) : Bool :=
  Text.isBlank c && !(0x1C ≤ c.toNat && c.toNat ≤ 0x1F)

def trim (s : List CodePoint) : List CodePoint :=
  ((s.dropWhile isMargin).reverse.dropWhile isMargin).reverse

/-- Leaves out the underscores, each of which must stand between two digits. -/
def withoutSeparators (afterDigit : Bool) : List CodePoint → Option (List CodePoint)
  | [] => some []
  | '_' :: rest =>
      if afterDigit && (rest.head?.map Text.isDecimalDigit).getD false then
        withoutSeparators false rest
      else none
  | c :: rest => (withoutSeparators (Text.isDecimalDigit c) rest).map (c :: ·)

def values (s : List CodePoint) : List Nat := s.filterMap Text.digitValue?

def splitSign : List CodePoint → Bool × List CodePoint
  | '-' :: rest => (true, rest)
  | '+' :: rest => (false, rest)
  | s => (false, s)

/-- The exponent of ten at the end of a numeral; nothing there means zero. -/
def exponent? : List CodePoint → Option Int
  | [] => some 0
  | c :: rest =>
      if c = 'e' ∨ c = 'E' then
        let (negative, digits) := splitSign rest
        if !digits.isEmpty && digits.all Text.isDecimalDigit then
          let n : Nat := (values digits).foldl (fun n d => 10 * n + d) 0
          some (if negative then -(n : Int) else n)
        else none
      else none

def digits? (negative : Bool) (s : List CodePoint) : Option Double :=
  let whole := s.takeWhile Text.isDecimalDigit
  let rest := s.dropWhile Text.isDecimalDigit
  let (fraction, rest) :=
    match rest with
    | '.' :: more => (more.takeWhile Text.isDecimalDigit, more.dropWhile Text.isDecimalDigit)
    | _ => ([], rest)
  if whole.isEmpty && fraction.isEmpty then none
  else (exponent? rest).map fun e => Double.ofDigits negative (values whole) (values fraction) e

/-- The words for the numbers without digits, in lower case. -/
def word? (negative : Bool) (s : List CodePoint) : Option Double :=
  let lower := Text.ofList (s.map (CodePoint.map Char.toLower))
  if lower = "nan" then some .nan
  else if lower = "inf" ∨ lower = "infinity" then some (.infinite negative)
  else none

def read? (text : Text) : Option Double := do
  let (negative, s) := splitSign (← withoutSeparators false (trim text.toList))
  (word? negative s).or (digits? negative s)

end ReleaseGate.Numeral
