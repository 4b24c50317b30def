/-!
Double-precision numbers as exact values. A finite one is a whole number of quanta, the least
subnormal `2⁻¹⁰⁷⁴`, whose significant bits fit in 53 places; so comparison is integer comparison
and each operation is exact integer work followed by one rounding to the nearest, ties to even.
Decimal text is in `Number.Decimal`.
-/

namespace ReleaseGate

/-- The binary places below the 53 leading ones of a magnitude. -/
def spareBits (n : Nat) : Nat := n.log2 - 52

/-- The magnitudes, in quanta, that a finite double can have. -/
def Representable (n : Nat) : Prop :=
  n % Nat.pow 2 (spareBits n) = 0 ∧ n < Nat.pow 2 2098

instance (n : Nat) : Decidable (Representable n) :=
  inferInstanceAs (Decidable (_ ∧ _))

inductive Double where
  | nan
  | infinite (negative : Bool)
  | finite (negative : Bool) (quanta : Nat) (fits : Representable quanta)
  deriving DecidableEq

/-- A place on the number line, counted in quanta, or beyond every finite number. -/
inductive Point where
  | below
  | at (quanta : Int)
  | above
  deriving DecidableEq

namespace Point

def lt : Point → Point → Bool
  | .at a, .at b => a < b
  | .below, .at _ | .below, .above | .at _, .above => true
  | _, _ => false

def le (a b : Point) : Bool := !b.lt a

end Point

def quantaPerUnit : Nat := Nat.pow 2 1074

namespace Double

def zero (negative : Bool) : Double := .finite negative 0 (by decide +kernel)

/-- The multiple of the last kept binary place that lies nearest to `num / den`. -/
def nearest (num den : Nat) : Nat :=
  let place := Nat.pow 2 (spareBits (num / den))
  let unit := den * place
  let count := num / unit
  let rest := num % unit
  if unit < 2 * rest ∨ (unit = 2 * rest ∧ count % 2 = 1) then (count + 1) * place
  else count * place

/-- The double nearest to `num / den` quanta; infinite beyond the finite range. -/
def ofRatio (negative : Bool) (num den : Nat) : Double :=
  if fits : Representable (nearest num den) then .finite negative (nearest num den) fits
  else .infinite negative

def ofInt (i : Int) : Double :=
  ofRatio (i < 0) (i.natAbs * quantaPerUnit) 1

/-- Signed quanta, rounded; an exact zero takes the given sign. -/
def ofQuanta (zeroSign : Bool) (q : Int) : Double :=
  if q = 0 then zero zeroSign else ofRatio (q < 0) q.natAbs 1

def signed (negative : Bool) (quanta : Nat) : Int :=
  if negative then -(quanta : Int) else quanta

/-- Where the number lies; not-a-number lies nowhere. -/
def point? : Double → Option Point
  | .nan => none
  | .infinite negative => some (if negative then .below else .above)
  | .finite negative quanta _ => some (.at (signed negative quanta))

def add : Double → Double → Double
  | .nan, _ | _, .nan => .nan
  | .infinite s, .infinite t => if s = t then .infinite s else .nan
  | .infinite s, .finite _ _ _ | .finite _ _ _, .infinite s => .infinite s
  | .finite s m _, .finite t n _ => ofQuanta (s && t) (signed s m + signed t n)

def mul : Double → Double → Double
  | .nan, _ | _, .nan => .nan
  | .infinite s, .infinite t => .infinite (s != t)
  | .infinite s, .finite t n _ | .finite t n _, .infinite s =>
      if n = 0 then .nan else .infinite (s != t)
  | .finite s m _, .finite t n _ => ofRatio (s != t) (m * n) quantaPerUnit

def divNat (x : Double) (d : Nat) : Double :=
  match x with
  | .nan => .nan
  | .infinite s => .infinite s
  | .finite s m _ => ofRatio s m d

def ofQuotient (i : Int) (d : Nat) : Double :=
  ofRatio (i < 0) (i.natAbs * quantaPerUnit) d

def half : Double := ofRatio false quantaPerUnit 2

def one : Double := ofInt 1

def floor? : Double → Option Int
  | .finite negative quanta _ => some (Int.fdiv (signed negative quanta) quantaPerUnit)
  | _ => none

def isFinite : Double → Bool
  | .finite _ _ _ => true
  | _ => false

end Double

end ReleaseGate
