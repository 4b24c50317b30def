import ReleaseGate.Yaml.Fault
import ReleaseGate.Yaml.Node
import ReleaseGate.Yaml.Plain

/-!
Documents as they are written: a key may be any part, and a scalar may stand for nothing. A tree
with a fault is no node. Faults come by depth: those of the parts of a collection before those of
the parts of its parts, and at one depth in the order of the text.
-/

namespace ReleaseGate.Yaml

inductive Tree where
  | scalar (p : Plain)
  | list (items : List Tree)
  | mapping (members : List (Tree × Tree))

def Plain.toNode : Plain → Except Fault Node
  | .null => .ok .null
  | .bool b => .ok (.bool b)
  | .int i => .ok (.int i)
  | .float x => .ok (.float x)
  | .text s => .ok (.str s)
  | .noDigits base => .error (.noDigits base)
  | .date iso =>
      match dateFault? iso with
      | some fault => .error (.impossibleDate fault)
      | none => .ok (.date iso)

/-- Lists of levels, joined level by level. -/
def joinLevels {α : Type} : List (List α) → List (List α) → List (List α)
  | [], ls => ls
  | ks, [] => ks
  | k :: ks, l :: ls => (k ++ l) :: joinLevels ks ls

namespace Tree

def null : Tree := .scalar .null

def ownFault? : Tree → Option Fault
  | .scalar p =>
      match p.toNode with
      | .ok _ => none
      | .error fault => some fault
  | _ => none

def toKey : Tree → Except Fault Key
  | .scalar p => do (← p.toNode).toKey.mapError fun _ => .keyNotScalar
  | _ => .error .keyNotScalar

def keyFault? (t : Tree) : Option Fault :=
  match t.toKey with
  | .ok _ => none
  | .error fault => some fault

mutual

def levels : Tree → List (List Fault)
  | .scalar _ => []
  | .list ts => ts.filterMap ownFault? :: itemLevels ts
  | .mapping ms =>
      (ms.flatMap fun m => (keyFault? m.1).toList ++ (ownFault? m.2).toList) :: memberLevels ms

def itemLevels : List Tree → List (List Fault)
  | [] => []
  | t :: ts => joinLevels (levels t) (itemLevels ts)

def memberLevels : List (Tree × Tree) → List (List Fault)
  | [] => []
  | (_, t) :: ms => joinLevels (levels t) (memberLevels ms)

end

def firstFault? (t : Tree) : Option Fault := t.ownFault? <|> t.levels.flatten.head?

mutual

/-- The node that a tree without a fault stands for. -/
def toNode? : Tree → Option Node
  | .scalar p => p.toNode.toOption
  | .list ts => (toItems? ts).map .list
  | .mapping ms => (toMembers? [] ms).map .mapping

def toItems? : List Tree → Option (List Node)
  | [] => some []
  | t :: ts => do return (← toNode? t) :: (← toItems? ts)

def toMembers? (done : List (Key × Node)) : List (Tree × Tree) → Option (List (Key × Node))
  | [] => some done
  | (k, t) :: ms => do
      let k ← k.toKey.toOption
      let n ← toNode? t
      toMembers? (Pairs.put k n done) ms

end

/-- The node that a tree stands for, or its first fault. -/
def toNode (t : Tree) : Except Fault Node :=
  match t.toNode? with
  | some n => .ok n
  | none => .error (t.firstFault?.getD .malformed)

end Tree

end ReleaseGate.Yaml
