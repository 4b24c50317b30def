import ReleaseGate.Plan.Gate
import ReleaseGate.Proofs.Adapter.Results
import ReleaseGate.Proofs.Steps
import ReleaseGate.Proofs.Value.Places
import ReleaseGate.Proofs.Verdict.Digest

/-!
The plan for a verdict that meets its contract, under a threshold between zero and one: there is one
exactly if the verdict has a digest, it is valid, and it is approved exactly outside learning mode
for a rollback, or for a deployment whose confidence reaches the threshold.
-/

namespace ReleaseGate

open Contract (plan_check)
open Verdict (proposedOf confidenceOf learningModeOf runIdOf Readable)

namespace Plan

/-- A threshold that the gate takes. -/
def IsThreshold (threshold : Value) : Prop :=
  (Value.float (.zero false)).notAfter? threshold = some true ∧
    threshold.notAfter? (.float .one) = some true

/-- What a verdict must propose to be carried out without anyone asking. -/
def Approves (verdict threshold : Value) : Prop :=
  learningModeOf verdict = .bool false ∧
    (proposedOf verdict = .str FactoryAction.killAndRollback.name ∨
      proposedOf verdict = .str FactoryAction.approveAutomergeDeploy.name ∧
        threshold.notAfter? (confidenceOf verdict) = some true)

/-- What the rest of the plan relies on in a decision. -/
structure Decision.Sound (verdict threshold : Value) (d : Decision) : Prop where
  approved : d.approved = true ↔ Approves verdict threshold
  carriesOut : d.approved = true → d.finalAction = proposedOf verdict ∧ d.finalAction ≠ holdAction
  final : d.finalAction.OneOf Contract.factoryActions
  reason : Text.isBlankText d.reason = false ∧ d.reason.isString = true

section

variable {verdict threshold : Value}

theorem Decision.Sound.held {action : Value} {reason : Text} (held : ¬ Approves verdict threshold)
    (final : action.OneOf Contract.factoryActions)
    (full : Text.isBlankText reason = false ∧ reason.isString = true) :
    Decision.Sound verdict threshold ⟨action, false, reason⟩ :=
  ⟨⟨fun h => (nomatch h), fun h => absurd h held⟩, fun h => (nomatch h), final, full⟩

theorem Decision.Sound.carried {reason : Text} (readable : Readable verdict)
    (approves : Approves verdict threshold)
    (full : Text.isBlankText reason = false ∧ reason.isString = true) :
    Decision.Sound verdict threshold ⟨proposedOf verdict, true, reason⟩ := by
  refine ⟨⟨fun _ => approves, fun _ => rfl⟩, fun _ => ⟨rfl, ?_⟩, readable.proposed, full⟩
  obtain h | h := approves.2
  · exact fun same => absurd (h.symm.trans same) (by decide)
  · exact fun same => absurd (h.1.symm.trans same) (by decide)

variable (readable : Readable verdict) (share : IsThreshold threshold)
include readable share

theorem threshold_compared : ∃ b, threshold.notAfter (confidenceOf verdict) = .ok b ∧
    threshold.notAfter? (confidenceOf verdict) = some b := by
  obtain ⟨p, hp⟩ := Value.place?_of_notAfter_float share.2
  obtain ⟨q, hq⟩ := Value.place?_of_number readable.confidence.1
  have hb := Value.notAfter?_of_places hp hq
  exact ⟨_, by rw [Value.notAfter, hb], hb⟩

/-- A readable verdict and a threshold in range are always decided, and soundly. -/
theorem decide_sound : ∃ d, decide (proposedOf verdict) (confidenceOf verdict) threshold
    (learningModeOf verdict).truthy = .ok d ∧ d.Sound verdict threshold := by
  obtain ⟨learning, hl⟩ := readable.learning
  obtain ⟨reached, compared, reaching⟩ := threshold_compared readable share
  have hold : holdAction.OneOf Contract.factoryActions := ⟨_, by decide, rfl⟩
  have learns (on : learning = true) : ¬ Approves verdict threshold := by
    rintro ⟨off, -⟩
    rw [hl, on] at off
    cases off
  rw [hl, Value.truthy, decide, compared]
  split
  · rename_i approve
    split
    · rename_i on
      exact ⟨_, rfl, .held (learns on) hold (by decide)⟩
    · rename_i off
      have hoff : learningModeOf verdict = .bool false := by simpa [off] using hl
      cases reached with
      | true => exact ⟨_, rfl, .carried readable ⟨hoff, Or.inr ⟨approve, reaching⟩⟩ (by decide)⟩
      | false =>
          refine ⟨_, rfl, .held ?_ hold (by decide)⟩
          rintro ⟨-, kill | ⟨-, reaches⟩⟩
          · exact absurd (approve.symm.trans kill) (by decide)
          · rw [reaching] at reaches
            cases reaches
  · rename_i notApprove
    split
    · rename_i kill
      split
      · rename_i on
        exact ⟨_, rfl, .held (learns on) readable.proposed (by decide)⟩
      · rename_i off
        have hoff : learningModeOf verdict = .bool false := by simpa [off] using hl
        exact ⟨_, rfl, .carried readable ⟨hoff, Or.inl kill⟩ (by decide)⟩
    · rename_i notKill
      refine ⟨_, rfl, .held ?_ readable.proposed (by decide)⟩
      rintro ⟨-, kill | ⟨approve, -⟩⟩
      · exact notKill kill
      · exact notApprove approve

end

def requestIdOf (verdict : Value) (d : Decision) : Except Misfit String := do
  requestIdFor (runIdOf verdict) (.str (← Verdict.contentHash verdict)) d.finalAction

def drafted (id : String) (verdict : Value) (d : Decision) : Plan where
  requestId := .str id
  runId := runIdOf verdict
  proposedAction := proposedOf verdict
  finalAction := d.finalAction
  confidence := confidenceOf verdict
  learningMode := learningModeOf verdict
  approved := .bool d.approved
  status := .proposed
  history := []

def Decision.status (d : Decision) : PlanStatus := if d.approved then .approved else .proposed

def opened (id : String) (verdict : Value) (d : Decision) (timestamp : Text) : Plan :=
  { drafted id verdict d with
    status := d.status
    history := [⟨.proposed, d.status, .str timestamp, .str d.reason⟩] }

section

variable {verdict threshold : Value} {d : Decision} {id : String} {timestamp : Text}

/-- An id begins with two letters. -/
theorem requestIdOf_nonBlank (identified : requestIdOf verdict d = .ok id) :
    Text.isBlankText id = false := by
  obtain ⟨hash, -, named⟩ := bind_eq_ok identified
  obtain ⟨s, -, rfl⟩ := map_eq_ok named
  rw [Text.isBlankText, ← Text.plain_append_plain, Text.toList_append, List.all_append]
  exact Bool.and_eq_false_iff.2 (Or.inl rfl)

theorem requestIdFor_ok {run hash action : Text} (hrun : run.isString = true)
    (hhash : hash.isString = true) (haction : action.isString = true) :
    ∃ id, requestIdFor (.str run) (.str hash) (.str action) = .ok id := by
  have joined : (run ++ "|" ++ hash ++ "|" ++ action).isString = true := by
    simp [hrun, hhash, haction]
  obtain ⟨s, text⟩ := Text.isString_iff.1 joined
  refine ⟨"AR-" ++ String.ofList ((Digest.sha256 s).toList.take 16), ?_⟩
  rw [requestIdFor]
  simp only [Value.display, text]
  rfl

theorem requestIdOf_ok (readable : Readable verdict) (encodable : verdict.isEncodable = true)
    (final : d.finalAction.OneOf Contract.factoryActions) :
    ∃ id, requestIdOf verdict d = .ok id := by
  obtain ⟨_, -, hash⟩ := Verdict.contentHash_ok encodable
  obtain ⟨run, named, -⟩ := readable.runId
  have actionString := Verdict.factoryAction_isEncodable final
  obtain ⟨action, -, asked⟩ := final
  have runString : run.isString = true := by
    have own := Verdict.entry_isEncodable encodable "run" "run_id"
    rwa [show Verdict.entry verdict "run" "run_id" = .str run from named] at own
  rw [asked] at actionString
  rw [requestIdOf, hash, named, asked]
  exact requestIdFor_ok runString rfl actionString

/-- A verdict with a lone surrogate has no request id. -/
theorem requestIdOf_error (h : verdict.isEncodable = false) :
    requestIdOf verdict d = .error .notEncodable := by
  rw [requestIdOf, Verdict.contentHash_error h]
  rfl

/-- The plan that is drawn up for a sound decision is valid. -/
theorem opened_valid (readable : Readable verdict) (sound : d.Sound verdict threshold)
    (identified : requestIdOf verdict d = .ok id) (time : Text.isBlankText timestamp = false) :
    (opened id verdict d timestamp).Valid where
  requestId := ⟨_, rfl, requestIdOf_nonBlank identified⟩
  runId := readable.runId
  proposed := readable.proposed
  final := sound.final
  confidence := readable.confidence
  learning := readable.learning
  approved := ⟨_, rfl⟩
  history := List.forall_mem_singleton.2 ⟨⟨_, rfl, time⟩, ⟨_, rfl, sound.reason.1⟩⟩
  last := by
    rintro t ⟨⟩
    rfl

/-- What is proposed for a verdict once the gate has decided. -/
theorem propose_eq (readable : Readable verdict)
    (decided : decide (proposedOf verdict) (confidenceOf verdict) threshold
      (learningModeOf verdict).truthy = .ok d) :
    propose verdict threshold =
      (requestIdOf verdict d).map fun id => (drafted id verdict d, d) := by
  obtain ⟨run, hrun, hid⟩ := readable.run
  obtain ⟨inputs, hinputs, hlearning⟩ := readable.inputs
  obtain ⟨proposal, hproposal, haction, hconfidence⟩ := readable.proposal
  simp only [propose, requestIdOf, hproposal, haction, hconfidence, hinputs, hlearning, hrun, hid,
    decided, bind, Except.bind]
  cases Verdict.contentHash verdict with
  | error e => rfl
  | ok hash => cases requestIdFor (runIdOf verdict) (.str hash) d.finalAction <;> rfl

theorem drafted_transitionTo (id : String) (verdict : Value) (d : Decision) (timestamp : Text) :
    (drafted id verdict d).transitionTo d.status (.str timestamp) (.str d.reason) =
      .ok (opened id verdict d timestamp) := by
  have moves : PlanStatus.mayBecome .proposed d.status = true := by
    unfold Decision.status
    cases d.approved <;> rfl
  exact if_pos moves

/-- What the gate comes to with its decision taken: the id and then the time are left to find. -/
theorem ofVerdict_decided (clean : Contract.verdictIssues verdict = [])
    (share : IsThreshold threshold) (decided : decide (proposedOf verdict) (confidenceOf verdict)
      threshold (learningModeOf verdict).truthy = .ok d) (clock : Clock) :
    (ofVerdict verdict threshold).run clock =
      match requestIdOf verdict d with
      | .error m => (.error (.misfit m), clock)
      | .ok id => ((opened id verdict d (clock.reading clock.asked)).check.map
          fun _ => opened id verdict d (clock.reading clock.asked), clock.tick.2) := by
  have checked : checkThreshold threshold = .ok () := by
    rw [checkThreshold, Value.notAfter, share.1, Value.notAfter, share.2]
    rfl
  rw [ofVerdict, Verdict.accept_of_clean clean, checked,
    propose_eq (Verdict.readable_of_clean clean) decided]
  simp only [run_bind, run_lift]
  cases requestIdOf verdict d with
  | error m => rfl
  | ok id =>
      have moved := drafted_transitionTo id verdict d (clock.reading clock.asked)
      rw [Decision.status] at moved
      simp only [Except.map, Misfit.lift, mapError_ok, run_now, run_pure, moved]
      cases (opened id verdict d (clock.reading clock.asked)).check <;> rfl

/-- A verdict that meets its contract and has a digest gets a plan, under any threshold that the
gate takes. -/
theorem ofVerdict_run (clean : Contract.verdictIssues verdict = []) (share : IsThreshold threshold)
    (encodable : verdict.isEncodable = true) {clock : Clock}
    (shown : Text.isBlankText (clock.reading clock.asked) = false) :
    ∃ d id, d.Sound verdict threshold ∧ requestIdOf verdict d = .ok id ∧
      (ofVerdict verdict threshold).run clock =
        (.ok (opened id verdict d (clock.reading clock.asked)), clock.tick.2) := by
  have readable := Verdict.readable_of_clean clean
  obtain ⟨d, decided, sound⟩ := decide_sound readable share
  obtain ⟨id, identified⟩ := requestIdOf_ok readable encodable sound.final
  have valid := opened_valid readable sound identified shown
  have ran := ofVerdict_decided clean share decided clock
  rw [identified] at ran
  simp only [plan_check.2 valid] at ran
  exact ⟨d, id, sound, identified, ran⟩

/-- A verdict without a digest ends the gate, before the clock is asked. -/
theorem ofVerdict_unencodable (clean : Contract.verdictIssues verdict = [])
    (share : IsThreshold threshold) (h : verdict.isEncodable = false) (clock : Clock) :
    (ofVerdict verdict threshold).run clock = (.error (.misfit .notEncodable), clock) := by
  obtain ⟨d, decided, -⟩ := decide_sound (Verdict.readable_of_clean clean) share
  rw [ofVerdict_decided clean share decided, requestIdOf_error h]

/-- The plan that the gate returns, whenever it returns one. -/
theorem ofVerdict_eq_ok (clean : Contract.verdictIssues verdict = [])
    (share : IsThreshold threshold) {clock after : Clock} {p : Plan}
    (ran : (ofVerdict verdict threshold).run clock = (.ok p, after)) :
    verdict.isEncodable = true ∧ ∃ d id, d.Sound verdict threshold ∧
      requestIdOf verdict d = .ok id ∧ p.Valid ∧
      p = opened id verdict d (clock.reading clock.asked) := by
  obtain ⟨d, decided, sound⟩ := decide_sound (Verdict.readable_of_clean clean) share
  have comes := (ofVerdict_decided clean share decided clock).symm.trans ran
  cases identified : requestIdOf verdict d with
  | error m =>
      rw [identified] at comes
      cases comes
  | ok id =>
      rw [identified] at comes
      obtain ⟨_, checked, rfl⟩ := map_eq_ok (Prod.mk.inj comes).1
      refine ⟨?_, d, id, sound, identified, plan_check.1 checked, rfl⟩
      rw [← Bool.not_eq_false]
      intro half
      rw [requestIdOf_error half] at identified
      cases identified

/-- A plan is returned exactly for a verdict whose texts have bytes. -/
theorem ofVerdict_returns_iff (clean : Contract.verdictIssues verdict = [])
    (share : IsThreshold threshold) {clock : Clock} (proper : clock.Proper) :
    (∃ p after, (ofVerdict verdict threshold).run clock = (.ok p, after)) ↔
      verdict.isEncodable = true := by
  constructor
  · rintro ⟨p, after, ran⟩
    exact (ofVerdict_eq_ok clean share ran).1
  · intro encodable
    obtain ⟨_, _, -, -, ran⟩ := ofVerdict_run clean share encodable (proper clock.asked)
    exact ⟨_, _, ran⟩

end

end Plan

end ReleaseGate
