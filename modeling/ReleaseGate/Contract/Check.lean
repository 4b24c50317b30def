import ReleaseGate.Contract.Issue
import ReleaseGate.Text.Blank

/-!
Checks of documents. A check lists the issues of a document at a place; checks of members are put
together by concatenation, so that none of them hides another. What a check can see of a document is
given by `Document`.
-/

namespace ReleaseGate

inductive Kind where
  | text
  | integer
  | number
  | flag
  | list
  | object
  deriving DecidableEq

def Kind.name : Kind → String
  | .text => "string"
  | .integer => "integer"
  | .number => "number"
  | .flag => "boolean"
  | .list => "list"
  | .object => "object"

/-- A tree of scalars, lists and objects that can be checked. -/
class Document (α : Type) where
  typeName : α → String
  fits : Kind → α → Bool
  /-- The characters of a text; none for anything else. -/
  text : α → Text
  /-- The items of a list; none for anything else. -/
  items : α → List α
  /-- The names of an object's members; none for anything else. -/
  keys : α → List Key
  member? : α → Text → Option α

namespace Value

def fits : Kind → Value → Bool
  | .text, .str _ | .integer, .int _ | .number, .int _ | .number, .float _ | .flag, .bool _
  | .list, .list _ | .object, .object _ => true
  | _, _ => false

def text : Value → Text
  | .str s => s
  | _ => ""

def items : Value → List Value
  | .list vs => vs
  | _ => []

def keys : Value → List Key
  | .object members => members.map fun m => .text m.1
  | _ => []

instance : Document Value := ⟨typeName, fits, text, items, keys, member?⟩

end Value

def unknownKeys (allowed : List Text) (keys : List Key) : List Key :=
  keys.filter fun k => k ∉ allowed.map Key.text

def unknownIssues (path : Path) (keys : List Key) : List Issue :=
  (sortBy Key.before keys).map fun k => .at (path ++ [k]) .unknownProperty

/-- The issues of a document that stands at a place. -/
abbrev Check (α : Type) := Path → α → List Issue

namespace Check

variable {α : Type} [Document α]

def anything : Check α := fun _ _ => []

def and (c d : Check α) : Check α := fun path doc => c path doc ++ d path doc

def both (cs : List (Check α)) : Check α := fun path doc => cs.flatMap fun c => c path doc

/-- A member of a kind, checked further if it is of it. -/
def member (needed : Bool) (key : Text) (kind : Kind) (check : Check α) : Check α :=
  fun path doc =>
    match Document.member? doc key with
    | none => if needed then [.at (path.member key) .missing] else []
    | some v =>
        if Document.fits kind v then check (path.member key) v
        else [.at (path.member key) (.wrongKind kind.name (Document.typeName v))]

def required (key : Text) (kind : Kind) (check : Check α) : Check α :=
  member true key kind check

def optional (key : Text) (kind : Kind) (check : Check α) : Check α :=
  member false key kind check

/-- A member that must be there and is checked whatever its kind. -/
def requiredAny (key : Text) (check : Check α) : Check α := fun path doc =>
  match Document.member? doc key with
  | none => [.at (path.member key) .missing]
  | some v => check (path.member key) v

def notBlank : Check α := fun path doc =>
  if Text.isBlankText (Document.text doc) then [.at path .blank] else []

def oneOf (allowed : List Text) : Check α := fun path doc =>
  if Document.text doc ∈ allowed then []
  else [.at path (.notAllowed (Document.text doc) allowed)]

def schema (expected : Text) : Check α := fun path doc =>
  if Document.text doc = expected then []
  else [.at path (.wrongSchema expected (Document.text doc))]

def onlyMembers (allowed : List Text) : Check α := fun path doc =>
  unknownIssues path (unknownKeys allowed (Document.keys doc))

def each (check : Check α) : Check α := fun path doc =>
  (Document.items doc).zipIdx.flatMap fun (v, i) => check (path.item i) v

def isText : Check α := fun path doc =>
  if Document.fits .text doc then []
  else [.at path (.wrongKind Kind.text.name (Document.typeName doc))]

def object (check : Check α) : Check α := fun path doc =>
  if Document.fits .object doc then check path doc else [.at path .notAnObject]

/-- A number within bounds; what is no number is outside all bounds. -/
def between (low high : Nat) : Check Value := fun path v =>
  if (Value.int low).notAfter? v = some true ∧ v.notAfter? (Value.int high) = some true then []
  else [.at path (.outside v low high)]

def atLeast (least : Nat) : Check Value := fun path v =>
  match v with
  | .int i => if i < least then [.at path (.tooSmall least)] else []
  | _ => []

end Check

end ReleaseGate
