import ReleaseGate.Value.Basic
import ReleaseGate.Text.Quoted

/-!
How messages show a value. `spell` quotes strings, also inside lists and objects; `display` shows a
string as it is and everything else as `spell` does.
-/

namespace ReleaseGate

def boolText (b : Bool) : String := if b then "True" else "False"

namespace Value

mutual

def spell : Value → String
  | .null => "None"
  | .bool b => boolText b
  | .int i => intText i
  | .float x => x.text
  | .str s => Text.quoted s
  | .list items => "[" ++ String.intercalate ", " (spellItems items) ++ "]"
  | .object members => "\x7b" ++ String.intercalate ", " (spellMembers members) ++ "\x7d"

def spellItems : List Value → List String
  | [] => []
  | v :: vs => spell v :: spellItems vs

def spellMembers : List (Text × Value) → List String
  | [] => []
  | (k, v) :: ms => (Text.quoted k ++ ": " ++ spell v) :: spellMembers ms

end

def display : Value → Text
  | .str s => s
  | v => v.spell

end Value

end ReleaseGate
