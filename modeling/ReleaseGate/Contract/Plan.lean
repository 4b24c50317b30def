import ReleaseGate.Contract.Verdict
import ReleaseGate.Plan.Status
import ReleaseGate.Adapter.Status

/-!
The contracts of action plans, adapter results and audit records. A plan's status is the target of
its last transition; an audit record is written in a final state only.
-/

namespace ReleaseGate.Contract

open Check

def planSchema : Text := "aegis.plan.v1"

def auditSchema : Text := "aegis.audit.v1"

def planStatuses : List Text := PlanStatus.all.map PlanStatus.name

def adapterStatuses : List Text := AdapterStatus.all.map AdapterStatus.name

def adapterResultMembers : List Text := ["adapter", "status", "message", "timestamp"]

def transition : Check Value :=
  object (both [
    onlyMembers ["from", "to", "timestamp", "reason"],
    required "from" .text (oneOf planStatuses),
    required "to" .text (oneOf planStatuses),
    required "timestamp" .text notBlank,
    required "reason" .text notBlank])

/-- The target of the last transition, where there is one and it is an object. -/
def lastTarget? (doc : Value) : Option Value :=
  match ((doc.member? "status_transitions").getD .null).items.getLast? with
  | some (.object members) => some ((members.lookup ↑"to").getD .null)
  | _ => none

def statusIsLastTarget : Check Value := fun path doc =>
  match doc.member? "status", lastTarget? doc with
  | some (.str status), some target =>
      if target = .str status then []
      else [.at (path.member "status") (.wrongLastTarget status target)]
  | _, _ => []

def planFields : Check Value :=
  both [
    required "action_request_id" .text notBlank,
    required "run_id" .text notBlank,
    required "proposed_action" .text (oneOf factoryActions),
    required "final_action" .text (oneOf factoryActions),
    required "confidence" .number (between 0 1),
    required "learning_mode" .flag anything,
    required "approved_for_execution" .flag anything,
    required "status" .text (oneOf planStatuses),
    required "status_transitions" .list (each transition),
    statusIsLastTarget]

def planMembers : List Text :=
  ["schema_version", "action_request_id", "run_id", "proposed_action", "final_action", "confidence",
   "learning_mode", "approved_for_execution", "status", "status_transitions"]

def planIssues (doc : Value) : List Issue :=
  if doc.fits .object then
    both [
      onlyMembers planMembers,
      required "schema_version" .text (schema planSchema),
      planFields] [] doc
  else [.notADocument "plan"]

/-- A result of an adapter; without a place of its own it goes by what it is. -/
def adapterResult : Check Value := fun path doc =>
  if doc.fits .object then
    both [
      onlyMembers adapterResultMembers,
      required "adapter" .text notBlank,
      required "status" .text (oneOf adapterStatuses),
      optional "message" .text anything,
      required "timestamp" .text notBlank] path doc
  else [.at (if path = [] then Path.root "adapter result" else path) .notAnObject]

def hash : Check Value := fun path doc =>
  let digits := doc.text.toList
  if digits.length = 64 ∧ digits.all (fun c => (Text.toList "0123456789abcdef").contains c) then []
  else [.at path .notAHash]

def finalStatus : Check Value := fun path doc =>
  match doc.member? "status" with
  | some (.str s) =>
      match PlanStatus.ofName? s with
      | some p => if p.isTerminal then [] else [.at (path.member "status") (.notTerminal s)]
      | none => []
  | _ => []

def auditMembers : List Text :=
  ["schema_version", "timestamp", "action_request_id", "run_id", "verdict_hash", "proposed_action",
   "final_action", "confidence", "learning_mode", "approved_for_execution", "status", "dry_run",
   "status_transitions", "adapter_results", "prev_hash", "entry_hash"]

/-- The check of audit records looks their status up in a set, where a container has no place. -/
def auditIssues (doc : Value) : Except Misfit (List Issue) :=
  if !doc.fits .object then .ok [.notADocument "audit record"]
  else if !((doc.member? "status").getD .null).hashable then .error .wrongType
  else
    .ok (both [
      onlyMembers auditMembers,
      required "schema_version" .text (schema auditSchema),
      required "timestamp" .text notBlank,
      required "verdict_hash" .text hash,
      planFields,
      finalStatus,
      required "dry_run" .flag anything,
      required "adapter_results" .list (each adapterResult),
      optional "prev_hash" .text anything,
      optional "entry_hash" .text anything] [] doc)

end ReleaseGate.Contract
