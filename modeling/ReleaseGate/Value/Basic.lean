import ReleaseGate.Number.Decimal
import ReleaseGate.Text.Basic

/-!
Documents whose shape nobody has checked yet: null, booleans, integers of any size, doubles,
strings, lists, and objects as members in order of arrival. Integers and doubles are different
values even when they are equal numbers.
-/

namespace ReleaseGate

inductive Value where
  | null
  | bool (b : Bool)
  | int (i : Int)
  | float (x : Double)
  | str (s : Text)
  | list (items : List Value)
  | object (members : List (Text × Value))

namespace Value

mutual

def decEq : (v w : Value) → Decidable (v = w)
  | .null, .null => isTrue rfl
  | .bool a, .bool b =>
      if h : a = b then isTrue (by rw [h]) else isFalse (by intro e; injection e; contradiction)
  | .int a, .int b =>
      if h : a = b then isTrue (by rw [h]) else isFalse (by intro e; injection e; contradiction)
  | .float a, .float b =>
      if h : a = b then isTrue (by rw [h]) else isFalse (by intro e; injection e; contradiction)
  | .str a, .str b =>
      if h : a = b then isTrue (by rw [h]) else isFalse (by intro e; injection e; contradiction)
  | .list a, .list b =>
      match decEqItems a b with
      | isTrue h => isTrue (by rw [h])
      | isFalse h => isFalse (by intro e; injection e; contradiction)
  | .object a, .object b =>
      match decEqMembers a b with
      | isTrue h => isTrue (by rw [h])
      | isFalse h => isFalse (by intro e; injection e; contradiction)
  | .null, .bool _ | .null, .int _ | .null, .float _ | .null, .str _ | .null, .list _
  | .null, .object _ | .bool _, .null | .bool _, .int _ | .bool _, .float _ | .bool _, .str _
  | .bool _, .list _ | .bool _, .object _ | .int _, .null | .int _, .bool _ | .int _, .float _
  | .int _, .str _ | .int _, .list _ | .int _, .object _ | .float _, .null | .float _, .bool _
  | .float _, .int _ | .float _, .str _ | .float _, .list _ | .float _, .object _ | .str _, .null
  | .str _, .bool _ | .str _, .int _ | .str _, .float _ | .str _, .list _ | .str _, .object _
  | .list _, .null | .list _, .bool _ | .list _, .int _ | .list _, .float _ | .list _, .str _
  | .list _, .object _ | .object _, .null | .object _, .bool _ | .object _, .int _
  | .object _, .float _ | .object _, .str _ | .object _, .list _ =>
      isFalse (by intro e; injection e)

def decEqItems : (v w : List Value) → Decidable (v = w)
  | [], [] => isTrue rfl
  | v :: vs, w :: ws =>
      match decEq v w, decEqItems vs ws with
      | isTrue h, isTrue hs => isTrue (by rw [h, hs])
      | isFalse h, _ => isFalse (by intro e; injection e; contradiction)
      | _, isFalse h => isFalse (by intro e; injection e; contradiction)
  | [], _ :: _ | _ :: _, [] => isFalse (by intro e; injection e)

def decEqMembers : (v w : List (Text × Value)) → Decidable (v = w)
  | [], [] => isTrue rfl
  | (k, v) :: vs, (l, w) :: ws =>
      if hk : k = l then
        match decEq v w, decEqMembers vs ws with
        | isTrue h, isTrue hs => isTrue (by rw [hk, h, hs])
        | isFalse h, _ => isFalse (by intro e; injection e with e; injection e; contradiction)
        | _, isFalse h => isFalse (by intro e; injection e; contradiction)
      else isFalse (by intro e; injection e with e; injection e; contradiction)
  | [], _ :: _ | _ :: _, [] => isFalse (by intro e; injection e)

end

instance : DecidableEq Value := decEq

instance : Inhabited Value := ⟨.null⟩

def typeName : Value → String
  | .null => "NoneType"
  | .bool _ => "bool"
  | .int _ => "int"
  | .float _ => "float"
  | .str _ => "str"
  | .list _ => "list"
  | .object _ => "dict"

/-- The member of that name; nothing outside objects. -/
def member? (v : Value) (key : Text) : Option Value :=
  match v with
  | .object members => members.lookup key
  | _ => none

/-- Neither null, false, zero nor empty. -/
def truthy : Value → Bool
  | .null => false
  | .bool b => b
  | .int i => i != 0
  | .float (.finite _ quanta _) => quanta != 0
  | .float _ => true
  | .str s => s != ""
  | .list items => !items.isEmpty
  | .object members => !members.isEmpty

def members : Value → List (Text × Value)
  | .object members => members
  | _ => []

def text? : Value → Option Text
  | .str s => some s
  | _ => none

def ofTexts (ss : List Text) : Value := .list (ss.map .str)

end Value

/-- Members by name; the last of two with one name wins, in the place of the first. -/
def putMember (key : Text) (v : Value) : List (Text × Value) → List (Text × Value)
  | [] => [(key, v)]
  | (k, w) :: rest => if k = key then (k, v) :: rest else (k, w) :: putMember key v rest

end ReleaseGate
