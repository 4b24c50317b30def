import ReleaseGate.Verdict.Rationale
import ReleaseGate.Digest.Sha256
import ReleaseGate.Json.Write

/-!
Verdicts: the proposed action for a change, with its scores, confidence and rationale. The inputs
are checked first and every issue is reported; the finished document is checked once more.
-/

namespace ReleaseGate

namespace Verdict

/-- The schema that stands for a policy without a version. -/
def policySchema : Text := "aegis.policy.v1"

/-- The issues of run metadata, inputs and snapshot, in this order. -/
def inputIssues (run inputs snapshot : Value) : List Issue :=
  Contract.run (Path.root "run") run ++ Contract.inputs (Path.root "inputs") inputs ++
    Contract.snapshot (Path.root "policy_evaluation") snapshot

def needsRollback (signals : Value) : Except Misfit Bool := do
  let ci ← Scorecard.ciFailed (← signals.need "ci")
  let canary ← Scorecard.canaryFailed ((← signals.find "canary").getD .null)
  let security ← Scorecard.hasSecurityFindings (← signals.need "security")
  return ci || canary || security

/-- The action of the policy after the overrides: a rollback is unconditional, and an approval is
held in learning mode and under a low score. -/
def proposedAction (inputs snapshot overall : Value) : Except Misfit Value := do
  let asked ← snapshot.need "proposed_factory_action"
  let rollback ← needsRollback (← inputs.need "signals")
  let learning := (← inputs.need "learning_mode").truthy
  let low ← overall.before (.int Scorecard.mediumRiskFrom)
  let action :=
    if rollback then .str FactoryAction.killAndRollback.name
    else if asked = .str FactoryAction.none.name then .str FactoryAction.holdForHuman.name
    else asked
  return if action = .str FactoryAction.approveAutomergeDeploy.name && (learning || low) then
    .str FactoryAction.holdForHuman.name
  else action

/-- The version that a snapshot names, or else the schema. -/
def versionOf (snapshot : Value) : Value :=
  match snapshot.member? "policy_version" with
  | some v => if v.truthy then v else .str policySchema
  | none => .str policySchema

def document (run inputs snapshot : Value) (scores : Scorecard) (action : Value)
    (confidence : Double) (r : Rationale) : Value :=
  .object [
    ("schema_version", .str Contract.verdictSchema),
    ("policy_version", versionOf snapshot),
    ("run", run),
    ("inputs", inputs),
    ("policy_evaluation", snapshot),
    ("scorecard", scores.toValue),
    ("verdict", .object [("proposed_action", action), ("confidence", .float confidence),
      ("recommended_next_steps", .ofTexts r.steps)]),
    ("rationale", .object [("summary", .str r.summary), ("key_evidence_refs", .list r.evidence)])]

def compose (run inputs snapshot : Value) : Except Misfit Value := do
  let scores ← Scorecard.compute inputs snapshot
  let overall := .int scores.overall
  let riskLevel := .str scores.riskLevel.name
  let action ← proposedAction inputs snapshot overall
  let confidence ← Scorecard.confidence overall riskLevel
  let r ← Rationale.build inputs snapshot overall riskLevel action
  return document run inputs snapshot scores action confidence r

def refuse : List Issue → Except Error Unit
  | [] => .ok ()
  | issues => .error (.contractViolation "verdict" issues)

def check (doc : Value) : Except Error Unit := refuse (Contract.verdictIssues doc)

/-- Refuses what breaks the contract of verdicts; what is no object is read as a list of pairs. -/
def accept (doc : Value) : Except Error Unit :=
  match doc with
  | .object members => check (.object members)
  | doc => do refuse (← Misfit.lift (do Contract.verdictEntryIssues (← Pairs.read doc)))

def build (run inputs snapshot : Value) : Except Error Value := do
  match inputIssues run inputs snapshot with
  | [] => do
      let doc ← Misfit.lift (compose run inputs snapshot)
      check doc
      return doc
  | issues => throw (.invalidVerdictInput issues)

/-- What identifies a verdict: the digest of its canonical text. -/
def contentHash (doc : Value) : Except Misfit String :=
  (Json.canonicalText doc).encoded.map Digest.sha256

end Verdict

end ReleaseGate
