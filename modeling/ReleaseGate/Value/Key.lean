import ReleaseGate.Value.Spelling
import ReleaseGate.Value.Compare

/-!
Keys name the parts of a document: a text names a member of an object and a number an item of a
list. The keys of a policy file may be any scalar of its notation.
-/

namespace ReleaseGate

inductive Key where
  | text (s : Text)
  | int (i : Int)
  | bool (b : Bool)
  | float (x : Double)
  | null
  | date (iso : String)
  deriving DecidableEq

namespace Key

def display : Key → Text
  | .text s => s
  | .int i => intText i
  | .bool b => boolText b
  | .float x => x.text
  | .null => "None"
  | .date iso => iso

/-- A place with one more key: numbers stand in brackets, everything else after a point. -/
def extend (place : Text) : Key → Text
  | .int i => place ++ "[" ++ intText i ++ "]"
  | .bool b => place ++ "[" ++ boolText b ++ "]"
  | k => if place = "" then k.display else place ++ "." ++ k.display

def place? : Key → Option (Option Point)
  | .int i => (Value.int i).place?
  | .bool b => (Value.bool b).place?
  | .float x => (Value.float x).place?
  | _ => none

/-- Texts go by code points, numbers by size and dates by time; keys of different kinds have no
order. -/
def before? : Key → Key → Option Bool
  | .text s, .text t | .date s, .date t => some (s < t)
  | k, l =>
      match k.place?, l.place? with
      | some p, some q => some (Value.related Point.lt p q)
      | _, _ => none

def before (k l : Key) : Bool := (before? k l).getD false

def areOrdered (ks : List Key) : Bool :=
  ks.length ≤ 1 || ks.all fun k => ks.all fun l => (before? k l).isSome

/-- Keys that are the same number are the same key. -/
def same (k l : Key) : Bool :=
  match k.place?, l.place? with
  | some p, some q => Value.related (fun a b => a == b) p q
  | _, _ => k == l

end Key

/-- The way from the root of a document to one of its parts, outermost key first. -/
abbrev Path := List Key

namespace Path

def text (p : Path) : Text := p.foldl Key.extend ""

/-- The path of a root that goes by a name; the empty name is no name. -/
def root (name : Text) : Path := if name = "" then [] else [.text name]

def member (p : Path) (name : Text) : Path := p ++ [.text name]

def item (p : Path) (index : Nat) : Path := p ++ [.int index]

end Path

end ReleaseGate
