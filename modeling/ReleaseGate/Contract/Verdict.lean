import ReleaseGate.Contract.Policy
import ReleaseGate.Value.Pairs

/-!
The contracts of verdict documents and of their parts: run metadata, inputs, policy snapshot,
scorecard, proposal and rationale. Each part can also be checked by itself at a place of its own.
-/

namespace ReleaseGate.Contract

open Check

def verdictSchema : Text := "aegis.verdict.v1"

def scoreDimensions : List Text := ["tests", "security", "risk", "ops", "policy"]

def changeFlags : List Text :=
  ["infra_change", "db_migration", "auth_change", "secrets_change", "dependency_change",
   "permission_change"]

def riskLevels : List Text := ["LOW", "MEDIUM", "HIGH"]

def ciStatuses : List Text := ["success", "failure", "pending", "cancelled"]

def policyActions : List Text := PolicyAction.all.map PolicyAction.name

def severities : List Text := Severity.all.map Severity.name

def factoryActions : List Text := FactoryAction.proposable.map FactoryAction.name

def snapshotActions : List Text := FactoryAction.all.map FactoryAction.name

def run : Check Value :=
  object (both [
    onlyMembers ["run_id", "repo", "pr_number", "head_sha", "timestamp_utc"],
    required "run_id" .text notBlank,
    required "repo" .text notBlank,
    required "head_sha" .text notBlank,
    required "timestamp_utc" .text notBlank,
    required "pr_number" .integer (atLeast 1)])

def changeSummary : Check Value :=
  both [
    onlyMembers ["files_changed", "change_flags", "touched_paths"],
    required "files_changed" .integer (atLeast 0),
    required "change_flags" .object
      ((onlyMembers changeFlags).and
        (both (changeFlags.map fun flag => required flag .flag anything))),
    optional "touched_paths" .list (each isText)]

def ciCheck : Check Value :=
  object (both [
    required "name" .text anything,
    optional "url" .text anything,
    optional "conclusion" .text anything])

def ci : Check Value :=
  both [
    onlyMembers ["status", "coverage_delta", "checks"],
    required "status" .text (oneOf ciStatuses),
    optional "coverage_delta" .number anything,
    optional "checks" .list (each ciCheck)]

def security : Check Value :=
  both [
    onlyMembers ["critical_count", "high_count"],
    required "critical_count" .integer (atLeast 0),
    required "high_count" .integer (atLeast 0)]

def canary : Check Value :=
  both [
    onlyMembers ["passed", "error_rate", "latency_delta"],
    required "passed" .flag anything,
    optional "error_rate" .number anything,
    optional "latency_delta" .number anything]

def inputs : Check Value :=
  object (both [
    onlyMembers ["learning_mode", "change_summary", "signals"],
    required "learning_mode" .flag anything,
    required "change_summary" .object changeSummary,
    required "signals" .object (both [
      onlyMembers ["ci", "security", "canary"],
      required "ci" .object ci,
      required "security" .object security,
      optional "canary" .object canary])])

def matchedRule : Check Value :=
  object (both [
    onlyMembers ["rule_id", "severity", "then", "reason"],
    required "rule_id" .text anything,
    required "severity" .text (oneOf ruleSeverities),
    required "then" .text (oneOf ruleActions),
    required "reason" .text anything])

def snapshot : Check Value :=
  object (both [
    onlyMembers ["matched_rules", "policy_action", "proposed_factory_action", "policy_version",
      "highest_severity"],
    required "matched_rules" .list (each matchedRule),
    required "policy_action" .text (oneOf policyActions),
    required "proposed_factory_action" .text (oneOf snapshotActions),
    optional "policy_version" .text anything,
    optional "highest_severity" .text (oneOf severities)])

def scorecard : Check Value :=
  object (both [
    onlyMembers ["overall", "dimensions", "risk_level"],
    required "overall" .integer (between 0 100),
    required "dimensions" .object
      ((onlyMembers scoreDimensions).and
        (both (scoreDimensions.map fun name => required name .integer (between 0 100)))),
    required "risk_level" .text (oneOf riskLevels)])

def proposal : Check Value :=
  both [
    onlyMembers ["proposed_action", "confidence", "recommended_next_steps"],
    required "proposed_action" .text (oneOf factoryActions),
    required "confidence" .number (between 0 1),
    required "recommended_next_steps" .list (each isText)]

def rationale : Check Value :=
  both [
    onlyMembers ["summary", "key_evidence_refs"],
    required "summary" .text notBlank,
    required "key_evidence_refs" .list (each isText)]

def verdictMembers : List Text :=
  ["schema_version", "policy_version", "run", "inputs", "policy_evaluation", "scorecard", "verdict",
   "rationale"]

def verdictParts : Check Value :=
  both [
    required "schema_version" .text (schema verdictSchema),
    required "policy_version" .text notBlank,
    requiredAny "run" run,
    requiredAny "inputs" inputs,
    requiredAny "policy_evaluation" snapshot,
    requiredAny "scorecard" scorecard,
    required "verdict" .object proposal,
    required "rationale" .object rationale]

def verdictIssues (doc : Value) : List Issue :=
  if doc.fits .object then ((onlyMembers verdictMembers).and verdictParts) [] doc
  else [.notADocument "verdict document"]

/-- The issues of a verdict that is given by its members, whose keys may be any scalars. Unknown
keys that have no order cannot be listed. -/
def verdictEntryIssues (entries : List (Key × Value)) : Except Misfit (List Issue) :=
  let unknown := unknownKeys verdictMembers (entries.map Prod.fst)
  if Key.areOrdered unknown then
    .ok (unknownIssues [] unknown ++ verdictParts [] (.object (Pairs.texts entries)))
  else .error .wrongType

end ReleaseGate.Contract
