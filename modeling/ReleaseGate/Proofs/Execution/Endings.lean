import ReleaseGate.Proofs.Contract.Plan
import ReleaseGate.Proofs.Execution.Steps

/-!
The three ways in which an accepted execution ends once its log is open: the plan is withheld, its
request id is taken, or it is carried out. Which one it is depends on the plan, the options and the
shared store alone; only the last one claims an id and uses adapters.
-/

namespace ReleaseGate.Execution

def withhold (log : FilePath) (hash : String) (options : Options) (plan : Plan) : Run Outcome := do
  let reason := if options.dryRun.truthy then "dry-run" else "no auto-exec"
  finish log hash options.dryRun (← moved plan .verified reason) []

def skip (log : FilePath) (hash : String) (options : Options) (plan : Plan) : Run Outcome := do
  let result := skipped plan.requestId (← time)
  finish log hash options.dryRun (← moved plan .verified "already executed (idempotent skip)")
    [result]

def carryOut (log : FilePath) (hash : String) (options : Options) (verdict : Value) (plan : Plan)
    (adapters : List Adapter) : Run Outcome := do
  let started ← moved plan .executed "executing adapters"
  let request : Request := ⟨plan.requestId, plan.runId, verdict, started⟩
  let results ← ExceptT.lift (runAdapters plan.finalAction request 0 adapters)
  let (status, reason) := conclusion results
  finish log hash options.dryRun (← moved started status reason) results

/-- An execution checks its arguments, finds its log, hashes the verdict, and then ends in one of
three ways. -/
theorem execute_eq (settings : Settings) (options : Options) (verdict : Value) (plan : Plan)
    (adapters : List Adapter) :
    execute settings options verdict plan adapters = (do
      accept verdict plan
      let log ← logPath settings options
      let hash ← Misfit.lift (Verdict.contentHash verdict)
      if isWithheld plan options then withhold log hash options plan
      else if ← claim settings plan.requestId then carryOut log hash options verdict plan adapters
      else skip log hash options plan) := rfl

theorem quiet_withhold (log : FilePath) (hash : String) (options : Options) (plan : Plan) :
    Quiet (withhold log hash options plan) :=
  (quiet_moved _ _ _).bind fun _ => quiet_finish _ _ _ _ _

theorem quiet_skip (log : FilePath) (hash : String) (options : Options) (plan : Plan) :
    Quiet (skip log hash options plan) :=
  quiet_time.bind fun _ => (quiet_moved _ _ _).bind fun _ => quiet_finish _ _ _ _ _

/-- A plan that is skipped and recorded comes with one result, which says so. -/
theorem skip_outcome {log : FilePath} {hash : String} {options : Options} {plan : Plan}
    {w : World} {o : Outcome} (h : ((skip log hash options plan).run w).1 = .ok o) :
    (∃ timestamp, o.results = [skipped plan.requestId timestamp]) ∧ o.plan.status = .verified := by
  rw [skip, run_bind_ok (time_run w), run_bind, moved_run, Plan.transitionTo] at h
  split at h
  · rename_i p w'' hp
    split at hp
    · cases hp
      rw [finish_run] at h
      split at h
      · cases h
        exact ⟨⟨_, rfl⟩, rfl⟩
      · cases h
    · cases hp
  · cases h

/-- Carrying out a plan leaves the store alone and asks adapters for the plan's final action only.
-/
theorem carryOut_uses (log : FilePath) (hash : String) (options : Options) (verdict : Value)
    (plan : Plan) (adapters : List Adapter) (w : World) :
    ∃ used, (∀ i ∈ used, i.action = plan.finalAction ∧ i.requestId = plan.requestId) ∧
      ((carryOut log hash options verdict plan adapters).run w).2.invoked = w.invoked ++ used ∧
      ((carryOut log hash options verdict plan adapters).run w).2.store = w.store ∧
      (plan.status.mayBecome .executed = true →
        ∀ a ∈ adapters.head?, a.perform.isSome = true → used ≠ []) := by
  rw [carryOut, run_bind, moved_run, Plan.transitionTo]
  cases may : plan.status.mayBecome .executed with
  | false => exact ⟨[], List.forall_mem_nil _, (List.append_nil _).symm, rfl, fun h => nomatch h⟩
  | true =>
      rw [if_pos rfl]
      dsimp only
      rw [run_bind_ok (run_monadLift _)]
      generalize hstarted : Plan.mk _ _ _ _ _ _ _ _ _ = started
      let request : Request := ⟨plan.requestId, plan.runId, verdict, started⟩
      obtain ⟨used, uses, invoked, store, -, able⟩ :=
        runAdapters_run plan.finalAction request 0 adapters w.ticked
      have rest (results : List AdapterResult) : Quiet (do
          finish log hash options.dryRun
            (← moved started (conclusion results).1 (conclusion results).2) results) :=
        (quiet_moved _ _ _).bind fun _ => quiet_finish _ _ _ _ _
      have quiet := rest (runAdapters plan.finalAction request 0 adapters w.ticked).1
        (runAdapters plan.finalAction request 0 adapters w.ticked).2
      exact ⟨used, uses, quiet.2.trans invoked, quiet.1.trans store, fun _ => able⟩

section

variable {settings : Settings} {options : Options} {verdict : Value} {plan : Plan}
  {adapters : List Adapter} {w w' : World} {log : FilePath} {hash : String}

/-- A call that is not accepted does nothing at all. -/
theorem execute_refused {e : Error} (refused : accept verdict plan = .error e) :
    (execute settings options verdict plan adapters).run w = (.error e, w) := by
  rw [execute_eq, refused]
  exact run_bind_error (run_lift _ w)

theorem execute_unopened {e : Error} (accepted : accept verdict plan = .ok ())
    (unopened : (logPath settings options).run w = (.error e, w')) :
    (execute settings options verdict plan adapters).run w = (.error e, w') := by
  rw [execute_eq, accepted, run_bind_ok (run_lift _ w)]
  exact run_bind_error unopened

theorem execute_unhashed {m : Misfit} (accepted : accept verdict plan = .ok ())
    (opened : (logPath settings options).run w = (.ok log, w'))
    (unhashed : Verdict.contentHash verdict = .error m) :
    (execute settings options verdict plan adapters).run w = (.error (.misfit m), w') := by
  rw [execute_eq, accepted, run_bind_ok (run_lift _ w), run_bind_ok opened, unhashed]
  exact run_bind_error (run_lift _ w')

theorem execute_opened (accepted : accept verdict plan = .ok ())
    (opened : (logPath settings options).run w = (.ok log, w'))
    (hashed : Verdict.contentHash verdict = .ok hash) :
    (execute settings options verdict plan adapters).run w =
      ExceptT.run (if isWithheld plan options then withhold log hash options plan
        else do
          if ← claim settings plan.requestId then carryOut log hash options verdict plan adapters
          else skip log hash options plan) w' := by
  rw [execute_eq, accepted, run_bind_ok (run_lift _ w), run_bind_ok opened, hashed]
  exact run_bind_ok (run_lift _ w')

theorem opened_quiet (opened : (logPath settings options).run w = (.ok log, w')) :
    w'.store = w.store ∧ w'.invoked = w.invoked := by
  have quiet := quiet_logPath settings options w
  rwa [opened] at quiet

theorem accepted_plan (accepted : accept verdict plan = .ok ()) : plan.Valid := by
  obtain ⟨_, -, rest⟩ := bind_eq_ok accepted
  obtain ⟨_, checked, -⟩ := bind_eq_ok rest
  exact Contract.plan_check.1 checked

theorem requestId_hashable (valid : plan.Valid) : plan.requestId.hashable = true := by
  obtain ⟨s, hs, -⟩ := valid.requestId
  rw [hs]
  rfl

/-- A withheld plan is closed before its id is claimed. -/
theorem execute_withheld (accepted : accept verdict plan = .ok ())
    (opened : (logPath settings options).run w = (.ok log, w'))
    (hashed : Verdict.contentHash verdict = .ok hash)
    (withheld : isWithheld plan options = true) :
    (execute settings options verdict plan adapters).run w =
      (withhold log hash options plan).run w' := by
  rw [execute_opened accepted opened hashed, if_pos withheld]

theorem execute_taken (accepted : accept verdict plan = .ok ())
    (opened : (logPath settings options).run w = (.ok log, w'))
    (hashed : Verdict.contentHash verdict = .ok hash)
    (free : isWithheld plan options = false) {claimed : List Value}
    (shared : w.store = some (.memory claimed))
    (taken : (claimed.any fun other => other.same plan.requestId) = true) :
    (execute settings options verdict plan adapters).run w =
      (skip log hash options plan).run w' := by
  have store := (opened_quiet opened).1.trans shared
  have claims := claim_run store settings (requestId_hashable (accepted_plan accepted))
  rw [if_pos taken] at claims
  rw [execute_opened accepted opened hashed, if_neg (by simp [free]), run_bind_ok claims]
  rfl

theorem execute_claiming (accepted : accept verdict plan = .ok ())
    (opened : (logPath settings options).run w = (.ok log, w'))
    (hashed : Verdict.contentHash verdict = .ok hash)
    (free : isWithheld plan options = false) {claimed : List Value}
    (shared : w.store = some (.memory claimed))
    (new : (claimed.any fun other => other.same plan.requestId) = false) :
    (execute settings options verdict plan adapters).run w =
      (carryOut log hash options verdict plan adapters).run
        { w' with store := some (.memory (claimed ++ [plan.requestId])) } := by
  have store := (opened_quiet opened).1.trans shared
  have claims := claim_run store settings (requestId_hashable (accepted_plan accepted))
  rw [if_neg (by simp [new])] at claims
  rw [execute_opened accepted opened hashed, if_neg (by simp [free]), run_bind_ok claims]
  rfl

theorem execute_withheld_quiet (accepted : accept verdict plan = .ok ())
    (opened : (logPath settings options).run w = (.ok log, w'))
    (hashed : Verdict.contentHash verdict = .ok hash)
    (withheld : isWithheld plan options = true) :
    let after := ((execute settings options verdict plan adapters).run w).2
    after.store = w.store ∧ after.invoked = w.invoked := by
  have before := opened_quiet opened
  have quiet := quiet_withhold log hash options plan w'
  rw [execute_withheld accepted opened hashed withheld]
  exact ⟨quiet.1.trans before.1, quiet.2.trans before.2⟩

theorem execute_taken_quiet (accepted : accept verdict plan = .ok ())
    (opened : (logPath settings options).run w = (.ok log, w'))
    (hashed : Verdict.contentHash verdict = .ok hash)
    (free : isWithheld plan options = false) {claimed : List Value}
    (shared : w.store = some (.memory claimed))
    (taken : (claimed.any fun other => other.same plan.requestId) = true) :
    let after := ((execute settings options verdict plan adapters).run w).2
    after.store = w.store ∧ after.invoked = w.invoked := by
  have before := opened_quiet opened
  have quiet := quiet_skip log hash options plan w'
  rw [execute_taken accepted opened hashed free shared taken]
  exact ⟨quiet.1.trans before.1, quiet.2.trans before.2⟩

/-- An execution of a new request claims it and uses adapters for its final action only. -/
theorem execute_claiming_uses (accepted : accept verdict plan = .ok ())
    (opened : (logPath settings options).run w = (.ok log, w'))
    (hashed : Verdict.contentHash verdict = .ok hash)
    (free : isWithheld plan options = false) {claimed : List Value}
    (shared : w.store = some (.memory claimed))
    (new : (claimed.any fun other => other.same plan.requestId) = false) :
    let after := ((execute settings options verdict plan adapters).run w).2
    ∃ used, (∀ i ∈ used, i.action = plan.finalAction ∧ i.requestId = plan.requestId) ∧
      after.invoked = w.invoked ++ used ∧
      after.store = some (.memory (claimed ++ [plan.requestId])) ∧
      (plan.status.mayBecome .executed = true →
        ∀ a ∈ adapters.head?, a.perform.isSome = true → used ≠ []) := by
  rw [execute_claiming accepted opened hashed free shared new, ← (opened_quiet opened).2]
  exact carryOut_uses log hash options verdict plan adapters _

end

end ReleaseGate.Execution
