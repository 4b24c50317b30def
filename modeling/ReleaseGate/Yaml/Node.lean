import ReleaseGate.Contract.Check
import ReleaseGate.Value.Pairs

/-!
The documents of policy files. They hold what JSON documents hold, and besides dates, and objects
whose keys are any scalars. `entries` is the reading of a document as an object, for which a list of
pairs will also do.
-/

namespace ReleaseGate

inductive Node where
  | null
  | bool (b : Bool)
  | int (i : Int)
  | float (x : Double)
  | str (s : Text)
  | date (iso : String)
  | list (items : List Node)
  | mapping (members : List (Key × Node))

namespace Node

mutual

def ofValue : Value → Node
  | .null => .null
  | .bool b => .bool b
  | .int i => .int i
  | .float x => .float x
  | .str s => .str s
  | .list vs => .list (ofItems vs)
  | .object ms => .mapping (ofMembers ms)

def ofItems : List Value → List Node
  | [] => []
  | v :: vs => ofValue v :: ofItems vs

def ofMembers : List (Text × Value) → List (Key × Node)
  | [] => []
  | (k, v) :: ms => (.text k, ofValue v) :: ofMembers ms

end

mutual

/-- The node as a value, if it holds nothing that JSON has not. -/
def toValue? : Node → Option Value
  | .null => some .null
  | .bool b => some (.bool b)
  | .int i => some (.int i)
  | .float x => some (.float x)
  | .str s => some (.str s)
  | .date _ => none
  | .list ns => (toItems? ns).map .list
  | .mapping ms => (toMembers? ms).map .object

def toItems? : List Node → Option (List Value)
  | [] => some []
  | n :: ns =>
      match toValue? n, toItems? ns with
      | some v, some vs => some (v :: vs)
      | _, _ => none

def toMembers? : List (Key × Node) → Option (List (Text × Value))
  | [] => some []
  | (.text k, n) :: ms =>
      match toValue? n, toMembers? ms with
      | some v, some vs => some ((k, v) :: vs)
      | _, _ => none
  | _ => none

end

def typeName : Node → String
  | .null => "NoneType"
  | .bool _ => "bool"
  | .int _ => "int"
  | .float _ => "float"
  | .str _ => "str"
  | .date _ => "date"
  | .list _ => "list"
  | .mapping _ => "dict"

def fits : Kind → Node → Bool
  | .text, .str _ | .integer, .int _ | .number, .int _ | .number, .float _ | .flag, .bool _
  | .list, .list _ | .object, .mapping _ => true
  | _, _ => false

def text : Node → Text
  | .str s => s
  | _ => ""

def items : Node → List Node
  | .list ns => ns
  | _ => []

def keys : Node → List Key
  | .mapping ms => ms.map Prod.fst
  | _ => []

def member? (n : Node) (name : Text) : Option Node :=
  match n with
  | .mapping ms => ms.lookup (.text name)
  | _ => none

instance : Document Node := ⟨typeName, fits, text, items, keys, member?⟩

def ofKey : Key → Node
  | .text s => .str s
  | .int i => .int i
  | .bool b => .bool b
  | .float x => .float x
  | .null => .null
  | .date iso => .date iso

def toKey : Node → Except Misfit Key
  | .str s => .ok (.text s)
  | .int i => .ok (.int i)
  | .bool b => .ok (.bool b)
  | .float x => .ok (.float x)
  | .null => .ok .null
  | .date iso => .ok (.date iso)
  | .list _ | .mapping _ => .error .wrongType

def walk : Node → Except Misfit (List Node)
  | .list ns => .ok ns
  | .mapping ms => .ok (ms.map fun m => ofKey m.1)
  | .str s => .ok (s.toList.map fun c => .str (Text.singleton c))
  | _ => .error .wrongType

instance : PairSource Node := ⟨walk, toKey⟩

/-- The members of a mapping, or those that a list of pairs amounts to. -/
def entries : Node → Except Misfit (List (Key × Node))
  | .mapping ms => .ok ms
  | n => Pairs.read n

end Node

end ReleaseGate
