import ReleaseGate.Policy.Basic
import ReleaseGate.Condition.Identifiers
import ReleaseGate.Signal

/-!
The identifiers that the rules of a policy mention must name signals. The check reads the conditions
as texts, without parsing them, and reports every identifier that names none.
-/

namespace ReleaseGate.Policy

/-- An identifier that names no signal, with the rule that mentions it and its position there. -/
structure Unknown where
  rule : Value
  identifier : Text
  position : Nat
  deriving DecidableEq

namespace Unknown

def text (u : Unknown) : Text :=
  "rule " ++ u.rule.display ++ ": unknown identifier " ++ Text.quoted u.identifier ++
    " at position " ++ intText u.position

end Unknown

def conditions (p : Policy) : List (Value × Value) := p.rules.map fun r => (r.id, r.condition)

/-- The id and the condition of a rule of an unchecked document, as texts; a rule without an id
goes by its index. -/
def rawCondition (rule : Value) (index : Nat) : Except Misfit (Value × Value) := do
  let id := (← rule.find "id").getD (.str ("rules[" ++ intText index ++ "]"))
  let condition := (← rule.find "when").getD (.str "")
  return (.str id.display, .str condition.display)

def rawConditions (v : Value) : Except Misfit (List (Value × Value)) := do
  match ← v.find "rules" with
  | none => return []
  | some rules =>
      if rules.truthy then (← rules.walk).zipIdx.mapM fun (r, i) => rawCondition r i
      else return []

def unknownIn (rule condition : Value) : Except Misfit (List Unknown) :=
  match condition with
  | .str s =>
      .ok (((Condition.mentions s).filter fun m => m.1 ∉ Signal.identifiers).map fun m =>
        ⟨rule, m.1, m.2⟩)
  | _ => .error .wrongType

def unknowns (conditions : List (Value × Value)) : Except Misfit (List Unknown) := do
  return (← conditions.mapM fun c => unknownIn c.1 c.2).flatten

/-- Refuses conditions that mention an unknown identifier; the first one gives the place. -/
def checkIdentifiers (conditions : List (Value × Value)) : Except Error Unit := do
  match ← Misfit.lift (unknowns conditions) with
  | [] => return ()
  | u :: us =>
      throw (.invalidPolicy u.rule (Text.intercalate "; " ((u :: us).map Unknown.text))
        (some u.position))

end ReleaseGate.Policy
