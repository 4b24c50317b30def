import ReleaseGate.Value.Access
import ReleaseGate.Value.Key

/-!
Reading a document as an object where a list of pairs will also do. A pair is whatever a walk splits
into two items, a key and a member. Keys must be scalars; a key may occur twice, and then the later
member stands under the earlier key.
-/

namespace ReleaseGate

/-- Documents that can be walked over, and some of which can be keys. -/
class PairSource (α : Type) where
  /-- The items that a walk over the document meets. -/
  walk : α → Except Misfit (List α)
  /-- A scalar as a key; containers are none. -/
  toKey : α → Except Misfit Key

namespace Pairs

variable {α : Type}

/-- The later of two members with one key counts, under the earlier key. -/
def put (k : Key) (v : α) : List (Key × α) → List (Key × α)
  | [] => [(k, v)]
  | (l, w) :: rest => if l.same k then (l, v) :: rest else (l, w) :: put k v rest

variable [PairSource α]

def ofItems (index : Nat) (done : List (Key × α)) : List α → Except Misfit (List (Key × α))
  | [] => .ok done
  | v :: vs => do
      match ← PairSource.walk v with
      | [k, m] => ofItems (index + 1) (put (← PairSource.toKey k) m done) vs
      | parts => throw (.notAPair index parts.length)

/-- The members that the items of a document amount to. -/
def read (v : α) : Except Misfit (List (Key × α)) := do ofItems 0 [] (← PairSource.walk v)

def texts (pairs : List (Key × α)) : List (Text × α) :=
  pairs.filterMap fun
    | (.text s, v) => some (s, v)
    | _ => none

end Pairs

namespace Value

def toKey : Value → Except Misfit Key
  | .str s => .ok (.text s)
  | .int i => .ok (.int i)
  | .bool b => .ok (.bool b)
  | .float x => .ok (.float x)
  | .null => .ok .null
  | .list _ | .object _ => .error .wrongType

instance : PairSource Value := ⟨walk, toKey⟩

end Value

end ReleaseGate
