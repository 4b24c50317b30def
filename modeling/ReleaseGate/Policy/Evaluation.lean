import ReleaseGate.Policy.Identifiers
import ReleaseGate.Condition.Evaluate

/-!
Evaluation of a policy for a signal vector. The rules are examined in order, up to the first
blocking rule that matches; the first match of the greatest severity decides, and its action becomes
a factory action according to the learning mode.
-/

namespace ReleaseGate

/-- A rule that matched, without its condition. -/
structure Match where
  id : Value
  severity : Severity
  action : PolicyAction
  reason : Value
  deriving DecidableEq

structure Evaluation where
  matched : List Match
  severity : Severity
  action : PolicyAction
  factoryAction : FactoryAction
  version : Value
  learningMode : Value
  deriving DecidableEq

def Rule.toMatch (r : Rule) : Match := ⟨r.id, r.severity, r.action, r.reason⟩

/-- Whether a rule's condition holds; a fault in it is the rule's. -/
def Rule.holds (r : Rule) (x : SignalVector) : Except Error Bool :=
  match r.condition with
  | .str source =>
      match Condition.evaluate source x with
      | .ok b => .ok b
      | .error fault =>
          .error (.invalidPolicy r.id fault.cause.message (some fault.position))
  | _ => .error (.misfit .wrongType)

namespace Policy

/-- The matching rules, up to the first blocking one. -/
def matching (x : SignalVector) : List Rule → Except Error (List Match)
  | [] => .ok []
  | r :: rs => do
      if ← r.holds x then
        if r.severity = .block then return [r.toMatch]
        else return r.toMatch :: (← matching x rs)
      else matching x rs

def winner (first : Match) (others : List Match) : Match :=
  others.foldl (fun w m => if m.severity.rank < w.severity.rank then m else w) first

def conclude (version learningMode : Value) : List Match → Evaluation
  | [] => ⟨[], .none, .none, .none, version, learningMode⟩
  | m :: ms =>
      let w := winner m ms
      ⟨m :: ms, w.severity, w.action, w.action.toFactory learningMode.truthy, version,
        learningMode⟩

/-- The evaluation of a policy whose identifiers have been checked. A learning mode that is given
goes before the policy's own. -/
def evaluate (p : Policy) (x : SignalVector) (learningMode : Option Value) :
    Except Error Evaluation := do
  return conclude p.version (learningMode.getD p.learningMode) (← matching x p.rules)

end Policy

namespace Evaluation

def toValue (e : Evaluation) : Value :=
  .object [
    ("matched", .list (e.matched.map fun m =>
      .object [("id", m.id), ("severity", .str m.severity.name), ("action", .str m.action.name),
        ("reason", m.reason)])),
    ("highest_severity", .str e.severity.name),
    ("proposed_action", .str e.action.name),
    ("proposed_factory_action", .str e.factoryAction.name),
    ("policy_version", e.version),
    ("learning_mode", e.learningMode)]

def snapshot (e : Evaluation) : Value :=
  .object [
    ("matched_rules", .list (e.matched.map fun m =>
      .object [("rule_id", m.id), ("severity", .str m.severity.name), ("then", .str m.action.name),
        ("reason", m.reason)])),
    ("policy_action", .str e.action.name),
    ("proposed_factory_action", .str e.factoryAction.name),
    ("policy_version", e.version),
    ("highest_severity", .str e.severity.name)]

end Evaluation

def factoryActionFor (action learningMode : Value) : Except Error FactoryAction :=
  match PolicyAction.ofValue? action with
  | some a => .ok (a.toFactory learningMode.truthy)
  | none => .error (.invalidPolicy .null ("Unrecognised policy action " ++ action.spell) none)

end ReleaseGate
