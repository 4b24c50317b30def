import ReleaseGate.Json.Token

/-!
Values from JSON text. The reader walks over the lexemes once and keeps the containers that are
still open; every lexeme either takes it on or ends the reading. Of two members of one name the
later one counts.
-/

namespace ReleaseGate.Json

/-- A container that is still open, with what it holds so far: items latest first, or members and
the name of the one that comes next. -/
inductive Frame where
  | items (before : List Value)
  | member (before : List (Text × Value)) (key : Text)

/-- What the reader waits for, inside the open containers, innermost first. -/
inductive State where
  /-- A value. -/
  | value (stack : List Frame)
  /-- The first item of a list, or its end. -/
  | firstItem (stack : List Frame)
  /-- The first name in an object, or its end. -/
  | firstName (stack : List Frame)
  /-- A name after a comma. -/
  | name (before : List (Text × Value)) (stack : List Frame)
  /-- The colon after a name. -/
  | colon (before : List (Text × Value)) (key : Text) (stack : List Frame)
  /-- What follows a complete value. -/
  | complete (v : Value) (stack : List Frame)

def startValue (stack : List Frame) : Token → Option State
  | .scalar v => some (.complete v stack)
  | .openList => some (.firstItem stack)
  | .openObject => some (.firstName stack)
  | _ => none

def step : State → Token → Option State
  | .value stack, t => startValue stack t
  | .firstItem stack, .closeList => some (.complete (.list []) stack)
  | .firstItem stack, t => startValue (.items [] :: stack) t
  | .firstName stack, .closeObject => some (.complete (.object []) stack)
  | .firstName stack, .scalar (.str k) => some (.colon [] k stack)
  | .name before stack, .scalar (.str k) => some (.colon before k stack)
  | .colon before k stack, .colon => some (.value (.member before k :: stack))
  | .complete v (.items before :: stack), .comma => some (.value (.items (v :: before) :: stack))
  | .complete v (.items before :: stack), .closeList =>
      some (.complete (.list (v :: before).reverse) stack)
  | .complete v (.member before k :: stack), .comma => some (.name (putMember k v before) stack)
  | .complete v (.member before k :: stack), .closeObject =>
      some (.complete (.object (putMember k v before)) stack)
  | _, _ => none

def run : State → List Token → Option State
  | s, [] => some s
  | s, t :: ts => (step s t).bind fun s => run s ts

def read? (s : List CodePoint) : Option Value :=
  match (tokens? s).bind (run (.value [])) with
  | some (.complete v []) => some v
  | _ => none

def ofText? (s : Text) : Option Value := read? s.toList

end ReleaseGate.Json
