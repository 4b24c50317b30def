import ReleaseGate.Value.Compare
import ReleaseGate.Value.Spelling

/-!
Reading unchecked documents, and what can go wrong there. Each function says which fault an unfit
value causes; none repairs or defaults anything that the caller did not ask for.
-/

namespace ReleaseGate

inductive Misfit where
  /-- An object lacks a member that is read. -/
  | missingMember (key : Text)
  /-- A value of the wrong type stands where an operation needs another. -/
  | wrongType
  /-- A member is asked for by name, with a fallback, of something that is no object. -/
  | notAnObject
  /-- A value is none of the names of an enumeration. -/
  | notAMember (value : Value) (enumeration : Text)
  /-- A number that is none has no whole part. -/
  | notANumber
  /-- A number is too large for the type that must hold it. -/
  | tooLarge
  /-- A number has too many digits to be cut to two places. -/
  | notQuantizable
  /-- An item of a list of pairs has another length than two. -/
  | notAPair (index length : Nat)
  /-- A text that must be encoded holds half a surrogate pair by itself. -/
  | notEncodable
  deriving DecidableEq

/-- The string that can be written as bytes. -/
def Text.encoded (t : Text) : Except Misfit String :=
  match t.string? with
  | some s => .ok s
  | none => .error .notEncodable

theorem Text.encoded_eq_ok {t : Text} {s : String} : t.encoded = .ok s ↔ t = s := by
  cases t <;> simp [encoded, string?]

theorem Text.encoded_error {t : Text} (h : t.isString = false) :
    t.encoded = .error .notEncodable := by
  cases t with
  | plain s => cases h
  | lone before u after => rfl

namespace Value

def need (v : Value) (key : Text) : Except Misfit Value :=
  match v with
  | .object members =>
      match members.lookup key with
      | some w => .ok w
      | none => .error (.missingMember key)
  | _ => .error .wrongType

def find (v : Value) (key : Text) : Except Misfit (Option Value) :=
  match v with
  | .object members => .ok (members.lookup key)
  | _ => .error .notAnObject

/-- The member that may be missing, where null says the same as missing. -/
def findSome (v : Value) (key : Text) : Except Misfit (Option Value) := do
  match ← v.find key with
  | none | some .null => return none
  | some w => return some w

/-- The items that a walk over the value meets: those of a list, the names of an object's members,
the characters of a string. -/
def walk (v : Value) : Except Misfit (List Value) :=
  match v with
  | .list items => .ok items
  | .object members => .ok (members.map fun m => .str m.1)
  | .str s => .ok (s.toList.map fun c => .str (Text.singleton c))
  | _ => .error .wrongType

/-- Whether `v` lies before `w`, where the two can be ordered. -/
def before (v w : Value) : Except Misfit Bool :=
  match v.before? w with
  | some b => .ok b
  | none => .error .wrongType

def notAfter (v w : Value) : Except Misfit Bool :=
  match v.notAfter? w with
  | some b => .ok b
  | none => .error .wrongType

/-- The value as a double; a boolean counts as zero or one. -/
def asDouble (v : Value) : Except Misfit Double :=
  match v with
  | .float x => .ok x
  | .int i => ofWhole i
  | .bool b => ofWhole (if b then 1 else 0)
  | _ => .error .wrongType
where
  /-- A whole number beyond the finite doubles has none. -/
  ofWhole (i : Int) : Except Misfit Double :=
    if (Double.ofInt i).isFinite then .ok (Double.ofInt i) else .error .tooLarge

def occursIn (part : List CodePoint) : List CodePoint → Bool
  | [] => part.isEmpty
  | c :: rest => part.isPrefixOf (c :: rest) || occursIn part rest

/-- Whether a text occurs in a string, among the items of a list or among the names of an object. -/
def mentionsText (v : Value) (part : Text) : Except Misfit Bool :=
  match v with
  | .str s => .ok (occursIn part.toList s.toList)
  | .list items => .ok (items.any fun w => w.same (.str part))
  | .object members => .ok (members.any fun m => m.1 == part)
  | _ => .error .wrongType

/-- Whether a test holds of some item; the items after the first such one are not looked at. -/
def anyItem (test : Value → Except Misfit Bool) : List Value → Except Misfit Bool
  | [] => .ok false
  | v :: vs => do if ← test v then return true else anyItem test vs

/-- Containers cannot be members of a set. -/
def hashable : Value → Bool
  | .list _ | .object _ => false
  | _ => true

end Value

end ReleaseGate
