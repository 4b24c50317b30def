import ReleaseGate.Json.Text
import ReleaseGate.Value.Basic
import ReleaseGate.Sorting

/-!
JSON text of values. `write` prints members as they stand; `sorted` puts the members of every object
into the order of their names, so that the text of a sorted value does not depend on how its members
arrived.
-/

namespace ReleaseGate.Json

structure Layout where
  item : List CodePoint
  member : List CodePoint

def compact : Layout := ⟨[','], [':']⟩

def spaced : Layout := ⟨[',', ' '], [':', ' ']⟩

def numberWords : NonFiniteWords :=
  ⟨['N', 'a', 'N'], ['I', 'n', 'f', 'i', 'n', 'i', 't', 'y']⟩

mutual

def write (l : Layout) : Value → List CodePoint
  | .null => ['n', 'u', 'l', 'l']
  | .bool true => ['t', 'r', 'u', 'e']
  | .bool false => ['f', 'a', 'l', 's', 'e']
  | .int i => (intDigits i).map .char
  | .float x => (x.digits numberWords).map .char
  | .str s => writeString s.toList
  | .list [] => ['[', ']']
  | .list (v :: vs) => '[' :: (write l v ++ writeItems l vs ++ [.char ']'])
  | .object [] => ['\x7b', '\x7d']
  | .object ((k, v) :: ms) =>
      '\x7b' :: (writeString k.toList ++ l.member ++ write l v ++ writeMembers l ms ++
        [.char '\x7d'])

def writeItems (l : Layout) : List Value → List CodePoint
  | [] => []
  | v :: vs => l.item ++ write l v ++ writeItems l vs

def writeMembers (l : Layout) : List (Text × Value) → List CodePoint
  | [] => []
  | (k, v) :: ms =>
      l.item ++ writeString k.toList ++ l.member ++ write l v ++ writeMembers l ms

end

def byName (m n : Text × Value) : Bool := m.1 < n.1

mutual

def sorted : Value → Value
  | .null => .null
  | .bool b => .bool b
  | .int i => .int i
  | .float x => .float x
  | .str s => .str s
  | .list vs => .list (sortedItems vs)
  | .object ms => .object (sortedMembers ms)

def sortedItems : List Value → List Value
  | [] => []
  | v :: vs => sorted v :: sortedItems vs

def sortedMembers : List (Text × Value) → List (Text × Value)
  | [] => []
  | (k, v) :: ms => insertSorted byName (k, sorted v) (sortedMembers ms)

end

/-- The compact text with sorted members, which identifies a value up to the order of members. -/
def canonicalText (v : Value) : Text := Text.ofList (write compact (sorted v))

/-- One line of text with sorted members and a space after each separator. -/
def lineText (v : Value) : Text := Text.ofList (write spaced (sorted v))

end ReleaseGate.Json
