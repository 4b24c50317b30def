import ReleaseGate.Number.Double

/-!
Decimal text of numbers. A decimal is a whole number of digits scaled by a power of ten; the text
of a double uses the fewest digits that read back as the same double, and of those the nearest.
-/

namespace ReleaseGate

structure Decimal where
  digits : Nat
  exponent : Int
  deriving DecidableEq

namespace Decimal

def digitCount (n : Nat) : Nat := (Nat.toDigits 10 n).length

/-- The double nearest to a decimal. Decimals beyond `10 ^ 310` or below `10 ^ -330` are decided by
their leading digit's place alone. -/
def toDouble (negative : Bool) (d : Decimal) : Double :=
  let top := d.exponent + digitCount d.digits
  if d.digits = 0 ∨ top < -330 then Double.zero negative
  else if 310 < top then .infinite negative
  else if 0 ≤ d.exponent then
    Double.ofRatio negative (d.digits * Nat.pow 10 d.exponent.toNat * quantaPerUnit) 1
  else
    Double.ofRatio negative (d.digits * quantaPerUnit) (Nat.pow 10 (-d.exponent).toNat)

/-- The place of the leading digit of a positive number of quanta: the number lies in
`[10 ^ (k - 1), 10 ^ k)`. -/
def leadingPlace (quanta : Nat) : Int :=
  (digitCount (quanta * Nat.pow 10 400 / quantaPerUnit) : Int) - 400

/-- The decimals of a given exponent on either side of a number of quanta, the nearer one first. -/
def neighbours (quanta : Nat) (exponent : Int) : List Decimal :=
  let num := if exponent < 0 then quanta * Nat.pow 10 (-exponent).toNat else quanta
  let den := if exponent < 0 then quantaPerUnit else quantaPerUnit * Nat.pow 10 exponent.toNat
  let low := num / den
  let rest := num % den
  if den < 2 * rest ∨ (den = 2 * rest ∧ low % 2 = 1) then [⟨low + 1, exponent⟩, ⟨low, exponent⟩]
  else [⟨low, exponent⟩, ⟨low + 1, exponent⟩]

def readingBack (x : Double) (ds : List Decimal) : Option Decimal :=
  ds.find? fun d => d.toDouble false = x

/-- Every decimal with at most 17 digits beside a number of quanta, fewest digits first. -/
def candidates (quanta : Nat) : List Decimal :=
  let place := leadingPlace quanta
  (List.range 17).flatMap fun (p : Nat) => neighbours quanta (place - (p + 1))

def exact (quanta : Nat) : Decimal := ⟨quanta * Nat.pow 5 1074, -1074⟩

/-- The fewest digits that read back as the magnitude, and of those the nearest. -/
def shortest (quanta : Nat) (fits : Representable quanta) : Decimal :=
  (readingBack (.finite false quanta fits) (candidates quanta)).getD (exact quanta)

end Decimal

def natDigits (n : Nat) : List Char := Nat.toDigits 10 n

def intDigits (i : Int) : List Char :=
  if i < 0 then '-' :: natDigits i.natAbs else natDigits i.natAbs

def intText (i : Int) : String := String.ofList (intDigits i)

namespace Decimal

def dropTrailingZeros (ds : List Char) : List Char :=
  (ds.reverse.dropWhile (· == '0')).reverse

/-- Digits with the point after the first `place` of them; zeros fill up on either side. -/
def positional (ds : List Char) (place : Int) : List Char :=
  if place ≤ 0 then '0' :: '.' :: (List.replicate (-place).toNat '0' ++ ds)
  else if (ds.length : Int) ≤ place then
    ds ++ List.replicate (place - ds.length).toNat '0' ++ ['.', '0']
  else ds.take place.toNat ++ '.' :: ds.drop place.toNat

/-- One digit before the point, and an exponent of at least two digits that shows its sign. -/
def scientific (ds : List Char) (exponent : Int) : List Char :=
  let magnitude := natDigits exponent.natAbs
  let padded := if magnitude.length < 2 then '0' :: magnitude else magnitude
  let fraction := if ds.length ≤ 1 then [] else '.' :: ds.drop 1
  ds.take 1 ++ fraction ++ 'e' :: (if exponent < 0 then '-' else '+') :: padded

/-- Positional from `10 ^ -4` up to below `10 ^ 16`, with at least one digit after the point. -/
def digitsText (d : Decimal) : List Char :=
  let all := natDigits d.digits
  let place := d.exponent + all.length
  let ds := dropTrailingZeros all
  if -4 ≤ place - 1 ∧ place - 1 < 16 then positional ds place else scientific ds (place - 1)

end Decimal

structure NonFiniteWords where
  nan : List Char
  infinite : List Char

namespace Double

def digits (words : NonFiniteWords) : Double → List Char
  | .nan => words.nan
  | .infinite negative => (if negative then ['-'] else []) ++ words.infinite
  | .finite negative quanta fits =>
      (if negative then ['-'] else []) ++
        if quanta = 0 then ['0', '.', '0'] else (Decimal.shortest quanta fits).digitsText

def messageWords : NonFiniteWords := ⟨['n', 'a', 'n'], ['i', 'n', 'f']⟩

def text (x : Double) : String := String.ofList (x.digits messageWords)

/-- The double that digits before and after a point and a power of ten denote. -/
def ofDigits (negative : Bool) (whole fraction : List Nat) (exponent : Int) : Double :=
  let all := (whole ++ fraction).foldl (fun n d => 10 * n + d) 0
  Decimal.toDouble negative ⟨all, exponent - fraction.length⟩

end Double

end ReleaseGate
