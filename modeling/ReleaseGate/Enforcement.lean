import ReleaseGate.Audit.Log
import ReleaseGate.Contract.Policy
import ReleaseGate.Plan.Basic
import ReleaseGate.Verdict.Build

/-!
Enforcement of contracts. A document that breaks its contract is refused with every issue, and the
refusal is noted in a log of violations.
-/

namespace ReleaseGate

/-- The contracts that are enforced, as opposed to those that are only reported on. -/
inductive Contract.Enforced where
  | policy
  | verdict
  | plan
  | auditRecord
  deriving DecidableEq

namespace Contract.Enforced

def all : List Enforced := [.policy, .verdict, .plan, .auditRecord]

def name : Enforced → Text
  | .policy => "policy"
  | .verdict => "verdict"
  | .plan => "plan"
  | .auditRecord => "audit_record"

def ofName? (s : Text) : Option Enforced := all.find? fun c => c.name == s

def issues (doc : Value) : Enforced → Except Misfit (List Issue)
  | .policy => .ok (policyIssues doc)
  | .verdict => .ok (verdictIssues doc)
  | .plan => .ok (planIssues doc)
  | .auditRecord => auditIssues doc

def check (c : Enforced) (doc : Value) : Except Error Unit := do
  match ← Misfit.lift (c.issues doc) with
  | [] => return ()
  | found => throw (.contractViolation c.name found)

end Contract.Enforced

structure Violation where
  contract : Text
  issues : List Issue
  deriving DecidableEq

namespace Violation

def toValue (v : Violation) : Value :=
  .object [("contract", .str v.contract), ("issues", .ofTexts (v.issues.map Issue.text))]

def ofError? : Error → Option Violation
  | .contractViolation contract issues => some ⟨contract, issues⟩
  | _ => none

def note {α : Type} (log : List Violation) : Except Error α → List Violation
  | .ok _ => log
  | .error e => log ++ (ofError? e).toList

end Violation

namespace Contract.Enforced

/-- The document itself where it meets the contract, with the log after the call. -/
def enforce (log : List Violation) (c : Enforced) (doc : Value) :
    Except Error Value × List Violation :=
  let answer := (c.check doc).map fun _ => doc
  (answer, Violation.note log answer)

/-- Calls one after another: what each answers, and the log after the last. -/
def enforceAll (log : List Violation) :
    List (Enforced × Value) → List (Except Error Value) × List Violation
  | [] => ([], log)
  | (c, doc) :: calls =>
      let (answer, log) := c.enforce log doc
      let (answers, log) := enforceAll log calls
      (answer :: answers, log)

end Contract.Enforced

end ReleaseGate
