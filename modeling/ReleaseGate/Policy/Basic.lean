import ReleaseGate.Error

/-!
Policies: an ordered list of rules and a default for learning mode. What the gate does not interpret
(a version, an id, a reason) is carried as it came.
-/

namespace ReleaseGate

structure Rule where
  id : Value
  condition : Value
  action : PolicyAction
  severity : Severity
  reason : Value
  deriving DecidableEq

structure Policy where
  version : Value
  rules : List Rule
  learningMode : Value
  deriving DecidableEq

namespace Rule

def ofValue (v : Value) : Except Misfit Rule := do
  let id ← v.need "id"
  let condition ← v.need "when"
  let action ← PolicyAction.ofValue (← v.need "then")
  let severity ← Severity.ofValue (← v.need "severity")
  let reason ← v.need "reason"
  return ⟨id, condition, action, severity, reason⟩

def toValue (r : Rule) : Value :=
  .object [("id", r.id), ("when", r.condition), ("then", .str r.action.name),
    ("severity", .str r.severity.name), ("reason", r.reason)]

end Rule

namespace Policy

/-- The learning mode that a document gives, or else the default. -/
def givenLearningMode (defaults : Option Value) (default : Value) : Except Misfit Value :=
  match defaults with
  | none => .ok default
  | some d => if d.truthy then (d.find "learning_mode").map (·.getD default) else .ok default

def ofValue (default : Value) (v : Value) : Except Misfit Policy := do
  let defaults ← v.find "defaults"
  let version ← v.need "version"
  let rules ← (((← v.find "rules").getD (.list [])).walk)
  let rules ← rules.mapM Rule.ofValue
  let learningMode ← givenLearningMode defaults default
  return ⟨version, rules, learningMode⟩

def toValue (p : Policy) : Value :=
  .object [("version", p.version), ("defaults", .object [("learning_mode", p.learningMode)]),
    ("rules", .list (p.rules.map Rule.toValue))]

end Policy

end ReleaseGate
