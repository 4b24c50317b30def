import ReleaseGate.Value.Basic

/-!
Equality and order of unchecked values. Numbers compare by their exact place on the line, an integer
with a double too, and a boolean counts as zero or one; strings go by code points; objects are equal
when they have the same members in whatever order.
-/

namespace ReleaseGate

namespace Value

/-- A boolean, integer or double as a number: its place on the line, if it has one. -/
def place? : Value → Option (Option Point)
  | .bool b => some (some (.at (if b then quantaPerUnit else 0)))
  | .int i => some (some (.at (i * quantaPerUnit)))
  | .float x => some x.point?
  | _ => none

/-- The truth of a relation on the line; what lies nowhere stands in no relation. -/
def related (r : Point → Point → Bool) : Option Point → Option Point → Bool
  | some p, some q => r p q
  | _, _ => false

def sameScalar (v w : Value) : Bool :=
  match v, w with
  | .null, .null => true
  | .str s, .str t => s == t
  | _, _ =>
      match v.place?, w.place? with
      | some p, some q => related (fun a b => a == b) p q
      | _, _ => false

mutual

def same : Value → Value → Bool
  | .list vs, .list ws => sameItems vs ws
  | .object ms, .object ns => ms.length == ns.length && sameMembers ms ns
  | v, w => sameScalar v w

def sameItems : List Value → List Value → Bool
  | [], [] => true
  | v :: vs, w :: ws => same v w && sameItems vs ws
  | _, _ => false

/-- Every member of the first list has an equal partner in the second. -/
def sameMembers : List (Text × Value) → List (Text × Value) → Bool
  | [], _ => true
  | (k, v) :: ms, ns =>
      (match ns.lookup k with
        | some w => same v w
        | none => false) && sameMembers ms ns

end

/-- Whether `v` lies before `w`: two numbers or two strings; anything else has no order. -/
def before? (v w : Value) : Option Bool :=
  match v, w with
  | .str s, .str t => some (s < t)
  | _, _ =>
      match v.place?, w.place? with
      | some p, some q => some (related Point.lt p q)
      | _, _ => none

def notAfter? (v w : Value) : Option Bool :=
  match v, w with
  | .str s, .str t => some (!(t < s))
  | _, _ =>
      match v.place?, w.place? with
      | some p, some q => some (related Point.le p q)
      | _, _ => none

mutual

/-- Whether `v` comes before `w` or in the same place, where lists go by their first difference. -/
def upTo? : Value → Value → Option Bool
  | .list vs, .list ws => upToItems? vs ws
  | v, w => notAfter? v w

def upToItems? : List Value → List Value → Option Bool
  | [], _ => some true
  | _ :: _, [] => some false
  | v :: vs, w :: ws => if same v w then upToItems? vs ws else upTo? v w

end

end Value

end ReleaseGate
