import ReleaseGate.Proofs.Execution.Authority
import ReleaseGate.Proofs.Plan.Gate
import ReleaseGate.Proofs.Verdict.Encodable

/-!
From a policy to a plan. Whatever comes out of one stage is accepted by the next one: the snapshot
of an evaluation by the verdict, and the verdict by the gate, whose plan meets its contract.
-/

namespace ReleaseGate

open Verdict (freezePolicy calmSignals calmInputs frozen rollbackPart)

namespace Policy.Evaluated

variable {default policy signals : Value} {learningMode : Option Value} {p : Policy}
  {e : Evaluation} (h : Evaluated default policy signals learningMode p e)
include h

theorem snapshot_clean (path : Path) : Contract.snapshot path e.snapshot = [] := by
  obtain ⟨version, named, -⟩ := h.version_shown
  exact Contract.snapshot_clean h.matched_proper named path

/-- The version of a policy is never blank, so it can stand in a verdict. -/
theorem not_blankVersion : ¬ Verdict.BlankVersion e.snapshot := by
  obtain ⟨version, named, shown⟩ := h.version_shown
  rintro ⟨s, found, -, blank⟩
  cases (congrArg some named).symm.trans found
  rw [shown] at blank
  cases blank

end Policy.Evaluated

namespace Plan

open Verdict (readable_of_clean)

/-- A plan that its contract admits, opened by one transition. -/
structure Opened (plan : Plan) : Prop where
  clean : Contract.planIssues plan.toValue = []
  transition : ∃ t, plan.history = [t]
  approved : plan.status = .approved ↔ plan.approved = .bool true
  proposed : plan.proposedAction ≠ .str FactoryAction.none.name
  final : plan.finalAction ≠ .str FactoryAction.none.name

theorem ne_none_of_oneOf {action : Value} (h : action.OneOf Contract.factoryActions) :
    action ≠ .str FactoryAction.none.name := by
  have apart : ∀ s ∈ Contract.factoryActions, Value.str s ≠ .str FactoryAction.none.name := by
    decide
  obtain ⟨s, listed, rfl⟩ := h
  exact apart s listed

/-- A verdict in order with a threshold in range and bytes to hash is planned. -/
theorem ofVerdict_opened {verdict threshold : Value}
    (clean : Contract.verdictIssues verdict = []) (share : IsThreshold threshold)
    (encodable : verdict.isEncodable = true) {clock : Clock} (proper : clock.Proper) :
    ∃ plan clock', (ofVerdict verdict threshold).run clock = (.ok plan, clock') ∧
      plan.Opened := by
  obtain ⟨d, id, sound, identified, ran⟩ := ofVerdict_run clean share encodable (proper clock.asked)
  have valid := opened_valid (readable_of_clean clean) sound identified (proper clock.asked)
  refine ⟨_, _, ran, Contract.planIssues_clean.2 valid, ⟨_, rfl⟩, ?_,
    ne_none_of_oneOf valid.proposed, ne_none_of_oneOf valid.final⟩
  show d.status = .approved ↔ Value.bool d.approved = .bool true
  unfold Decision.status
  cases d.approved <;> decide

end Plan

/-- Every evaluation of a policy leads to a verdict: with run metadata and inputs that their
contracts admit, one is built. Under every threshold that verdict becomes an opened plan, unless
there is half a surrogate pair in what it was built from: then it has no digest, and the gate ends
without a plan. -/
theorem stages_compose {default policy signals : Value} {learningMode : Option Value}
    {e : Evaluation}
    (evaluated : Policy.evaluateDocument default policy signals learningMode = .ok e)
    {run inputs : Value} (cleanRun : Contract.run (Path.root "run") run = [])
    (cleanInputs : Contract.inputs (Path.root "inputs") inputs = []) :
    (∀ path, Contract.snapshot path e.snapshot = []) ∧
    ∃ doc, Verdict.build run inputs e.snapshot = .ok doc ∧ Contract.verdictIssues doc = [] ∧
      ∀ threshold clock, Plan.IsThreshold threshold → clock.Proper →
        (run.isEncodable = true ∧ inputs.isEncodable = true ∧ e.snapshot.isEncodable = true →
          ∃ plan clock', (Plan.ofVerdict doc threshold).run clock = (.ok plan, clock') ∧
            plan.Opened) ∧
        (¬ (run.isEncodable = true ∧ inputs.isEncodable = true ∧ e.snapshot.isEncodable = true) →
          (Plan.ofVerdict doc threshold).run clock = (.error (.misfit .notEncodable), clock)) := by
  obtain ⟨p, evaluated⟩ := Policy.evaluated_of_ok evaluated
  have clean := Verdict.inputIssues_clean.2
    ⟨cleanRun, cleanInputs, evaluated.snapshot_clean (Path.root "policy_evaluation")⟩
  obtain ⟨doc, built, cleanDoc⟩ := Verdict.build_of_full clean evaluated.not_blankVersion
  have texts := Verdict.built_isEncodable built
  exact ⟨evaluated.snapshot_clean, doc, built, cleanDoc, fun threshold clock share proper =>
    ⟨fun strings => Plan.ofVerdict_opened cleanDoc share (texts.2 strings) proper,
      fun half => Plan.ofVerdict_unencodable cleanDoc share
        (Bool.eq_false_iff.2 fun whole => half (texts.1 whole)) clock⟩⟩

theorem stages_compose_freeze :
    Policy.evaluateDocument (.bool true) freezePolicy.toValue calmSignals (some (.bool false)) =
      .ok frozen ∧
    Contract.run (Path.root "run") (rollbackPart "run") = [] ∧
    Contract.inputs (Path.root "inputs") calmInputs = [] ∧
    Plan.IsThreshold (.int 1) ∧ Execution.stoppedClock.Proper ∧
    ∃ doc, Verdict.build (rollbackPart "run") calmInputs frozen.snapshot = .ok doc ∧
      ((rollbackPart "run").isEncodable = true ∧ calmInputs.isEncodable = true ∧
        frozen.snapshot.isEncodable = true) ∧
      ∃ plan clock', (Plan.ofVerdict doc (.int 1)).run Execution.stoppedClock = (.ok plan, clock') ∧
        plan.Opened := by
  have cleanRun : Contract.run (Path.root "run") (rollbackPart "run") = [] := by decide +kernel
  have cleanInputs : Contract.inputs (Path.root "inputs") calmInputs = [] := by decide +kernel
  have share : Plan.IsThreshold (.int 1) := ⟨by decide +kernel, by decide +kernel⟩
  have proper := Execution.stoppedClock_proper
  have strings : (rollbackPart "run").isEncodable = true ∧ calmInputs.isEncodable = true ∧
      frozen.snapshot.isEncodable = true := by decide +kernel
  obtain ⟨-, doc, built, -, plans⟩ := stages_compose Verdict.frozen_evaluated cleanRun cleanInputs
  exact ⟨Verdict.frozen_evaluated, cleanRun, cleanInputs, share, proper, doc, built, strings,
    (plans (.int 1) Execution.stoppedClock share proper).1 strings⟩

def halfRun : Value :=
  .object (putMember "repo" (.str .firstHalf) (rollbackPart "run").members)

/-- The run and the inputs are admitted and become a verdict that meets its contract, but no plan.
-/
theorem halfRun_unplanned :
    Policy.evaluateDocument (.bool true) freezePolicy.toValue calmSignals (some (.bool false)) =
      .ok frozen ∧
    Contract.run (Path.root "run") halfRun = [] ∧
    Contract.inputs (Path.root "inputs") calmInputs = [] ∧
    ∃ doc, Verdict.build halfRun calmInputs frozen.snapshot = .ok doc ∧
      Contract.verdictIssues doc = [] ∧ Plan.IsThreshold (.int 1) ∧
      Execution.stoppedClock.Proper ∧
      (Plan.ofVerdict doc (.int 1)).run Execution.stoppedClock =
        (.error (.misfit .notEncodable), Execution.stoppedClock) := by
  have cleanRun : Contract.run (Path.root "run") halfRun = [] := by decide +kernel
  have cleanInputs : Contract.inputs (Path.root "inputs") calmInputs = [] := by decide +kernel
  have share : Plan.IsThreshold (.int 1) := ⟨by decide +kernel, by decide +kernel⟩
  have made : (Verdict.build halfRun calmInputs frozen.snapshot).toOption.map Value.isEncodable =
      some false := by decide +kernel
  obtain ⟨doc, found, half⟩ := Option.map_eq_some_iff.1 made
  have built := eq_ok_of_toOption found
  have clean := Verdict.clean_of_built built
  exact ⟨Verdict.frozen_evaluated, cleanRun, cleanInputs, doc, built, clean, share,
    Execution.stoppedClock_proper, Plan.ofVerdict_unencodable clean share half _⟩

end ReleaseGate
