import ReleaseGate.Verdict.Build
import ReleaseGate.Proofs.Contract.Plan

/-!
What a verdict says, read off its document. A document that meets the contract of verdicts has all
the parts that the gate reads, and they are of the right kinds.
-/

namespace ReleaseGate.Verdict

/-- A member of a member; null where there is none. -/
def entry (verdict : Value) (part key : Text) : Value :=
  ((verdict.member? part).bind fun w => w.member? key).getD .null

def runIdOf (verdict : Value) : Value := entry verdict "run" "run_id"

def learningModeOf (verdict : Value) : Value := entry verdict "inputs" "learning_mode"

def proposedOf (verdict : Value) : Value := entry verdict "verdict" "proposed_action"

def confidenceOf (verdict : Value) : Value := entry verdict "verdict" "confidence"

/-- The parts that the gate reads: they are there, and as their contracts say. -/
structure Readable (verdict : Value) : Prop where
  run : ∃ w, verdict.need "run" = .ok w ∧ w.need "run_id" = .ok (runIdOf verdict)
  runId : (runIdOf verdict).NonBlank
  inputs : ∃ w, verdict.need "inputs" = .ok w ∧ w.need "learning_mode" =
    .ok (learningModeOf verdict)
  learning : ∃ b, learningModeOf verdict = .bool b
  proposal : ∃ w, verdict.need "verdict" = .ok w ∧
    w.need "proposed_action" = .ok (proposedOf verdict) ∧
    w.need "confidence" = .ok (confidenceOf verdict)
  proposed : (proposedOf verdict).OneOf Contract.factoryActions
  confidence : (confidenceOf verdict).InUnit

theorem need_of_member {v w : Value} {key : Text} (h : v.member? key = some w) :
    v.need key = .ok w := by
  cases v with
  | object ms =>
      have found : ms.lookup key = some w := h
      simp only [Value.need, found]
  | null | bool _ | int _ | float _ | str _ | list _ => cases h

theorem entry_of_member {v w x : Value} {part key : Text} (hw : v.member? part = some w)
    (hx : w.member? key = some x) : entry v part key = x := by
  simp [entry, hw, hx]

theorem read_entry {v w x : Value} {part key : Text} (hw : v.member? part = some w)
    (hx : w.member? key = some x) :
    ∃ w, v.need part = .ok w ∧ w.need key = .ok (entry v part key) :=
  ⟨w, need_of_member hw, entry_of_member hw hx ▸ need_of_member hx⟩

open Contract Check in
/-- A verdict that passes its contract has every part that a plan reads. -/
theorem readable_of_clean {verdict : Value} (h : Contract.verdictIssues verdict = []) :
    Readable verdict := by
  unfold Contract.verdictIssues at h
  split at h
  case isFalse => cases h
  simp only [and_clean, Contract.verdictParts, both_cons_clean, both_nil_clean, and_true] at h
  obtain ⟨-, -, -, hrun, hinputs, -, -, hproposal, -⟩ := h
  obtain ⟨run, foundRun, cleanRun⟩ := requiredAny_clean.1 hrun
  obtain ⟨inputs, foundInputs, cleanInputs⟩ := requiredAny_clean.1 hinputs
  obtain ⟨proposal, foundProposal, -, cleanProposal⟩ := required_clean.1 hproposal
  rw [Contract.run, object_clean] at cleanRun
  rw [Contract.inputs, object_clean] at cleanInputs
  obtain ⟨runMembers, rfl, cleanRun⟩ := cleanRun
  obtain ⟨inputMembers, rfl, cleanInputs⟩ := cleanInputs
  simp only [Contract.proposal, both_cons_clean] at cleanRun cleanInputs cleanProposal
  obtain ⟨id, foundId, -⟩ := required_clean.1 cleanRun.2.1
  obtain ⟨learning, foundLearning, -⟩ := required_clean.1 cleanInputs.2.1
  obtain ⟨action, foundAction, -⟩ := required_clean.1 cleanProposal.2.1
  obtain ⟨share, foundShare, -⟩ := required_clean.1 cleanProposal.2.2.1
  refine ⟨read_entry foundRun foundId, ?_, read_entry foundInputs foundLearning, ?_,
    ⟨proposal, need_of_member foundProposal, ?_, ?_⟩, ?_, ?_⟩
  · rw [runIdOf, entry_of_member foundRun foundId]
    exact (required_nonBlank foundId).1 cleanRun.2.1
  · rw [learningModeOf, entry_of_member foundInputs foundLearning]
    exact (required_flag foundLearning).1 cleanInputs.2.1
  · rw [proposedOf, entry_of_member foundProposal foundAction]
    exact need_of_member foundAction
  · rw [confidenceOf, entry_of_member foundProposal foundShare]
    exact need_of_member foundShare
  · rw [proposedOf, entry_of_member foundProposal foundAction]
    exact (required_oneOf foundAction).1 cleanProposal.2.1
  · rw [confidenceOf, entry_of_member foundProposal foundShare]
    exact (required_inUnit foundShare).1 cleanProposal.2.2.1

theorem accept_of_clean {verdict : Value} (h : Contract.verdictIssues verdict = []) :
    accept verdict = .ok () := by
  cases verdict with
  | object ms =>
      rw [accept, check, h]
      rfl
  | null | bool _ | int _ | float _ | str _ | list _ => cases h

/-- A verdict outside learning mode that asks for a rollback, with no confidence at all. -/
def rollback : Value :=
  .object [
    ("schema_version", .str Contract.verdictSchema),
    ("policy_version", .str policySchema),
    ("run", .object [("run_id", .str "run-1"), ("repo", .str "shop"), ("pr_number", .int 1),
      ("head_sha", .str "c0ffee"), ("timestamp_utc", .str "2024-05-01T12:00:00Z")]),
    ("inputs", .object [
      ("learning_mode", .bool false),
      ("change_summary", .object [("files_changed", .int 0),
        ("change_flags", .object (Contract.changeFlags.map fun flag => (flag, .bool false)))]),
      ("signals", .object [("ci", .object [("status", .str "failure")]),
        ("security", .object [("critical_count", .int 0), ("high_count", .int 0)])])]),
    ("policy_evaluation", .object [("matched_rules", .list []), ("policy_action", .str "NONE"),
      ("proposed_factory_action", .str "NONE")]),
    ("scorecard", .object [("overall", .int 0),
      ("dimensions", .object (Contract.scoreDimensions.map fun name => (name, .int 0))),
      ("risk_level", .str "HIGH")]),
    ("verdict", .object [("proposed_action", .str "KILL_AND_ROLLBACK"), ("confidence", .int 0),
      ("recommended_next_steps", .list [])]),
    ("rationale", .object [("summary", .str "ci failed"), ("key_evidence_refs", .list [])])]

theorem rollback_clean : Contract.verdictIssues rollback = [] := by
  decide +kernel

end ReleaseGate.Verdict
