import ReleaseGate.Proofs.Execution.Endings
import ReleaseGate.Proofs.Plan.Gate

/-!
What it takes for an adapter to be used on a verdict: every plan for the verdict is accepted, and
its execution uses adapters exactly where the verdict asks for an action that needs nobody's
consent, the run is not dry and the request is new.
-/

namespace ReleaseGate.Execution

open Verdict (proposedOf confidenceOf learningModeOf runIdOf Readable)

section

variable {verdict threshold : Value} {d : Plan.Decision} {id : String} {timestamp : Text}

theorem same_refl_of_nonBlank {v : Value} (h : v.NonBlank) : v.same v = true := by
  obtain ⟨s, rfl, -⟩ := h
  simp [Value.same, Value.sameScalar]

/-- A plan drawn up for a verdict is accepted together with that verdict. -/
theorem accept_opened (clean : Contract.verdictIssues verdict = [])
    (sound : d.Sound verdict threshold) (identified : Plan.requestIdOf verdict d = .ok id)
    (time : Text.isBlankText timestamp = false) :
    accept verdict (Plan.opened id verdict d timestamp) = .ok () := by
  have readable := Verdict.readable_of_clean clean
  have checked := Contract.plan_check.2 (Plan.opened_valid readable sound identified time)
  obtain ⟨run, hrun, hid⟩ := readable.run
  have same : (Plan.opened id verdict d timestamp).runId.same (runIdOf verdict) = true :=
    same_refl_of_nonBlank readable.runId
  have status : ¬ ((Plan.opened id verdict d timestamp).status ≠ .proposed ∧
      (Plan.opened id verdict d timestamp).status ≠ .approved) := by
    show ¬ (d.status ≠ .proposed ∧ d.status ≠ .approved)
    unfold Plan.Decision.status
    cases d.approved <;> decide
  simp only [accept, Verdict.accept_of_clean clean, checked, hrun, hid, bind, Except.bind,
    Misfit.lift, mapError_ok, same, status]
  rfl

theorem isWithheld_opened (sound : d.Sound verdict threshold) (id : String) (timestamp : Text)
    (options : Options) :
    isWithheld (Plan.opened id verdict d timestamp) options = false ↔
      options.dryRun.truthy = false ∧ Plan.Approves verdict threshold := by
  have final : (Plan.opened id verdict d timestamp).finalAction = d.finalAction := rfl
  have approved : (Plan.opened id verdict d timestamp).approved.truthy = d.approved := rfl
  rw [isWithheld, final, approved, ← sound.approved]
  constructor
  · intro h
    simp only [Bool.or_eq_false_iff, Bool.not_eq_false'] at h
    exact ⟨h.2, h.1.2⟩
  · rintro ⟨dry, yes⟩
    have other := (sound.carriesOut yes).2
    simp [dry, yes, other]

theorem status_opened (sound : d.Sound verdict threshold) (id : String) (timestamp : Text)
    (approves : Plan.Approves verdict threshold) :
    (Plan.opened id verdict d timestamp).status = .approved := by
  show d.status = .approved
  rw [Plan.Decision.status, if_pos (sound.approved.2 approves)]

end

/-- There is a plan for a verdict exactly if the verdict holds no half of a surrogate pair. An
execution of the plan uses an adapter exactly if the run is not dry, the verdict was not given in
learning mode, the request is new, and the verdict asks for a rollback, or for a deployment with the
confidence that the threshold wants. The adapters are used for the proposed action; where none is
used, the store stays as it was. -/
theorem execute_uses_iff {verdict threshold : Value} (clean : Contract.verdictIssues verdict = [])
    (share : Plan.IsThreshold threshold) {planClock : Clock} (proper : planClock.Proper)
    {settings : Settings} {options : Options} {files : Files} {clock : Clock}
    {claimed : List Value} {log : FilePath} {w : World}
    (opens : (logPath settings options).run ⟨files, clock, some (.memory claimed), []⟩ =
    (.ok log, w))
    {first : Adapter} (able : first.perform.isSome = true) (others : List Adapter) :
    ((∃ plan planClock', (Plan.ofVerdict verdict threshold).run planClock =
    (.ok plan, planClock')) ↔
      verdict.isEncodable = true) ∧
    ∀ plan planClock', (Plan.ofVerdict verdict threshold).run planClock = (.ok plan, planClock') →
      let after := ((execute settings options verdict plan (first :: others)).run
        ⟨files, clock, some (.memory claimed), []⟩).2
      (after.invoked ≠ [] ↔
        options.dryRun.truthy = false ∧ learningModeOf verdict = .bool false ∧
        (claimed.any fun other => other.same plan.requestId) = false ∧
        (proposedOf verdict = .str FactoryAction.killAndRollback.name ∨
          proposedOf verdict = .str FactoryAction.approveAutomergeDeploy.name ∧
            threshold.notAfter? (confidenceOf verdict) = some true)) ∧
      (∀ i ∈ after.invoked, i.action = proposedOf verdict) ∧
      (after.invoked = [] → after.store = some (.memory claimed)) := by
  refine ⟨Plan.ofVerdict_returns_iff clean share proper, fun plan planClock' planned => ?_⟩
  obtain ⟨encodable, d, id, sound, identified, -, same⟩ :=
    Plan.ofVerdict_eq_ok clean share planned
  obtain ⟨_, -, hashed⟩ := Verdict.contentHash_ok encodable
  have time := proper planClock.asked
  have accepted : accept verdict plan = .ok () := same ▸ accept_opened clean sound identified time
  have withheld := isWithheld_opened sound id (planClock.reading planClock.asked) options
  rw [← same] at withheld
  intro after
  -- Which way the execution ends is up to the plan and the options first, then up to the store.
  cases held : isWithheld plan options with
  | true =>
      obtain ⟨store, idle⟩ : after.store = some (.memory claimed) ∧ after.invoked = [] :=
        execute_withheld_quiet accepted opens hashed held
      refine ⟨⟨fun h => absurd idle h, ?_⟩, fun i hi => ?_, fun _ => store⟩
      · rintro ⟨dry, learning, -, asks⟩
        rw [withheld.2 ⟨dry, learning, asks⟩] at held
        cases held
      · rw [idle] at hi
        cases hi
  | false =>
      obtain ⟨dry, learning, asks⟩ := withheld.1 held
      cases taken : claimed.any fun other => other.same plan.requestId with
      | true =>
          obtain ⟨store, idle⟩ : after.store = some (.memory claimed) ∧ after.invoked = [] :=
            execute_taken_quiet accepted opens hashed held rfl taken
          refine ⟨⟨fun h => absurd idle h, fun h => (nomatch h.2.2.1)⟩, fun i hi => ?_,
            fun _ => store⟩
          rw [idle] at hi
          cases hi
      | false =>
          obtain ⟨used, uses, ran, -, someUse⟩ : ∃ used, (∀ i ∈ used, i.action = plan.finalAction ∧
              i.requestId = plan.requestId) ∧ after.invoked = [] ++ used ∧ _ :=
            execute_claiming_uses accepted opens hashed held rfl taken
          have approved := status_opened sound id
            (planClock.reading planClock.asked) ⟨learning, asks⟩
          rw [← same] at approved
          have nonempty : used ≠ [] := someUse (by rw [approved]; rfl) first rfl able
          rw [ran, List.nil_append]
          refine ⟨⟨fun _ => ⟨dry, learning, rfl, asks⟩, fun _ => nonempty⟩, fun i hi => ?_,
            fun none => absurd none nonempty⟩
          have yes := sound.approved.2 ⟨learning, asks⟩
          have final : plan.finalAction = d.finalAction := congrArg Plan.finalAction same
          exact (uses i hi).1.trans (final.trans (sound.carriesOut yes).1)

def stoppedClock : Clock := ⟨fun _ => "2024-05-01T12:00:00Z", 0⟩

theorem stoppedClock_proper : stoppedClock.Proper := by
  have full : Text.isBlankText "2024-05-01T12:00:00Z" = false := by decide
  exact fun _ => full

def mute : Adapter := ⟨none, "Mute", some fun _ _ => pure (.atOnce (.document .null))⟩

def earnest : Options := ⟨.bool false, some ["audit.jsonl"], .null⟩

theorem execute_uses_iff_rollback :
    Contract.verdictIssues Verdict.rollback = [] ∧ Plan.IsThreshold (.int 1) ∧
      stoppedClock.Proper ∧ mute.perform.isSome = true ∧
      (logPath .default earnest).run ⟨.empty, stoppedClock, some (.memory []), []⟩ =
        (.ok ["audit.jsonl"], ⟨.empty, stoppedClock, some (.memory []), []⟩) ∧
      ∃ plan planClock', (Plan.ofVerdict Verdict.rollback (.int 1)).run stoppedClock =
          (.ok plan, planClock') ∧
        ((execute .default earnest Verdict.rollback plan [mute]).run
          ⟨.empty, stoppedClock, some (.memory []), []⟩).2.invoked ≠ [] := by
  have share : Plan.IsThreshold (.int 1) := ⟨by decide +kernel, by decide +kernel⟩
  have opens : (logPath .default earnest).run ⟨.empty, stoppedClock, some (.memory []), []⟩ =
      (.ok ["audit.jsonl"], ⟨.empty, stoppedClock, some (.memory []), []⟩) := logPath_open rfl _ _
  have able : mute.perform.isSome = true := rfl
  obtain ⟨planned, uses⟩ :=
    execute_uses_iff Verdict.rollback_clean share stoppedClock_proper opens able []
  obtain ⟨plan, planClock', ran⟩ := planned.2 (by decide +kernel)
  exact ⟨Verdict.rollback_clean, share, stoppedClock_proper, able, opens, plan, planClock', ran,
    (uses plan planClock' ran).1.2 ⟨rfl, rfl, rfl, Or.inl rfl⟩⟩

end ReleaseGate.Execution
