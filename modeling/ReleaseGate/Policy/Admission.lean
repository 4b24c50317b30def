import ReleaseGate.Policy.Evaluation
import ReleaseGate.Yaml.Node

/-!
Unchecked policy documents become policies when they meet their contract and mention known
identifiers only. Whatever is no object of JSON cannot become a policy; for such a document the
question is only which complaint it causes.
-/

namespace ReleaseGate.Policy

def ofObject (default v : Value) : Except Error Policy :=
  match Contract.policyIssues v with
  | [] => do
      checkIdentifiers (← Misfit.lift (rawConditions v))
      Misfit.lift (ofValue default v)
  | issues => .error (.contractViolation "policy" issues)

/-- The complaint about a document that is no object of JSON: it is read as an object where it can
be and checked as one. -/
def complaint (n : Node) : Error :=
  match n.entries with
  | .error m => .misfit m
  | .ok entries =>
      let doc := Node.mapping entries
      if !Contract.hasOrderedKeys doc then .misfit .wrongType
      else
        match Contract.policyIssues doc with
        | [] => .misfit .notAnObject
        | issues => .contractViolation "policy" issues

def accept (default v : Value) : Except Error Policy :=
  match v with
  | .object members => ofObject default (.object members)
  | v => .error (complaint (.ofValue v))

def acceptNode (default : Value) (n : Node) : Except Error Policy :=
  match n.toValue? with
  | some v => accept default v
  | none => .error (complaint n)

/-- The evaluation of an unchecked policy for unchecked signals. The signals are checked first. -/
def evaluateDocument (default policy signals : Value) (learningMode : Option Value) :
    Except Error Evaluation := do
  let x ← (SignalVector.ofValue signals).mapError .incompleteSignals
  let p ← accept default policy
  p.evaluate x learningMode

end ReleaseGate.Policy
