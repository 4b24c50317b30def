import ReleaseGate.Proofs.Execution.Calls

/-!
Executions that end in a rejection: the verdict or the plan breaks a contract, the two belong to
different runs, or the plan stands where no edge leads on. Most rejections come before anything is
touched. One comes too late: a plan that is to be carried out but was never moved to approved gives
its request id away before the state machine refuses it. The error for half a surrogate pair finds
no fault with a plan and is not a rejection; like every error it leaves the log as it was.
-/

namespace ReleaseGate

/-- Errors that find fault with what is given: a contract, an edge of the state machine, or a value
out of its range. -/
def Error.rejects : Error → Bool
  | .contractViolation _ _ | .invalidTransition _ _ | .foreignPlan _ _ | .thresholdOutside _
  | .unsupportedFileType _ | .noPolicyPath | .notANumeral _ | .confidenceSetting | .levelSetting _
  | .unnamedAdapter | .timeoutNotPositive _ | .malformedJson | .malformedYaml _ => true
  | .misfit (.notAMember _ _) | .misfit .notANumber | .misfit (.notAPair _ _) => true
  | _ => false

namespace Files

/-- Every file of the first is in the second, with its text. -/
def Keeps (f g : Files) : Prop :=
  ∀ p s, f.lookup p = some (.file s) → g.lookup p = some (.file s)

theorem Keeps.refl (f : Files) : Keeps f f := fun _ _ h => h

theorem Keeps.trans {f g h : Files} (fg : Keeps f g) (gh : Keeps g h) : Keeps f h :=
  fun p s hs => gh p s (fg p s hs)

theorem SameFiles.keeps {f g : Files} (h : SameFiles f g) : Keeps f g := fun p => (h p).1

theorem createNew_keeps {f g : Files} {p : FilePath} {content : String}
    (h : f.createNew p content = .ok g) : Keeps f g := by
  intro q s found
  obtain ⟨e, there, h⟩ := bind_eq_ok h
  cases e with
  | some e => cases h
  | none =>
      have free := (access_eq_ok.1 there).2.2
      have other : q ≠ p := by
        rintro rfl
        rw [free] at found
        cases found
      simp only [bind, Except.bind, write, there] at h
      split at h
      · rw [← Except.ok.inj h, lookup_put (ordinary_of_missing free), if_neg other]
        exact found
      · cases h

end Files

namespace Execution

open Verdict (runIdOf)

theorem need_error {v : Value} {key : Text} {m : Misfit} (h : v.need key = .error m) :
    m = .missingMember key ∨ m = .wrongType := by
  cases v with
  | object ms =>
      simp only [Value.need] at h
      split at h
      · cases h
      · exact Or.inl (Except.error.inj h).symm
  | null | bool _ | int _ | float _ | str _ | list _ => exact Or.inr (Except.error.inj h).symm

theorem lastHash_misfit {text : String} {m : Misfit}
    (h : Audit.lastHash text = .error (.misfit m)) : m = .wrongType := by
  unfold Audit.lastHash at h
  split at h
  · cases h
  · split at h
    · cases h
    · split at h
      · cases h
      · cases h
      · rename_i other failed
        injection h with h
        injection h with h
        subst h
        obtain rfl | rfl := need_error failed
        · exact absurd rfl (other _)
        · rfl

theorem encoded_not_rejected {text : Text} {m : Misfit} (h : text.encoded = .error m) :
    (Error.misfit m).rejects = false := by
  cases encodable : text.isString with
  | true =>
      obtain ⟨s, rfl⟩ := Text.isString_iff.1 encodable
      cases h
  | false =>
      rw [Text.encoded_error encodable] at h
      cases h
      rfl

theorem append_not_rejected {files : Files} {path : FilePath} {record : Value} {e : Error}
    (clean : Contract.auditIssues record = .ok [])
    (failed : Audit.append files path record = .error e) : e.rejects = false := by
  have writing (fault : FileFault) : (Audit.writeFault path fault).rejects = false := by
    cases fault <;> rfl
  have checked : Audit.checkRecord record = .ok () := by
    rw [Audit.checkRecord, clean]
  obtain unchecked | ⟨_, -, failed⟩ := bind_eq_error failed
  · rw [checked] at unchecked
    cases unchecked
  obtain unread | ⟨text, -, failed⟩ := bind_eq_error failed
  · obtain ⟨fault, -, rfl⟩ := mapError_eq_error.1 unread
    exact writing fault
  dsimp only at failed
  cases last : Audit.lastHash text with
  | error fault =>
      rw [last] at failed
      cases fault with
      | corrupt =>
          cases failed
          rfl
      | misfit m =>
          cases failed
          rw [lastHash_misfit last]
          rfl
  | ok hash =>
      simp only [last, pure_bind] at failed
      obtain unhashed | ⟨entry, -, failed⟩ := bind_eq_error failed
      · obtain ⟨m, unencoded, rfl⟩ := mapError_eq_error.1 unhashed
        exact encoded_not_rejected (map_eq_error (map_eq_error unencoded))
      obtain unshown | ⟨line, -, failed⟩ := bind_eq_error failed
      · obtain ⟨m, unencoded, rfl⟩ := mapError_eq_error.1 unshown
        exact encoded_not_rejected unencoded
      obtain unwritten | ⟨_, -, failed⟩ := bind_eq_error failed
      · obtain ⟨fault, -, rfl⟩ := mapError_eq_error.1 unwritten
        exact writing fault
      · cases failed

section

variable {log : FilePath} {hash : String} {dryRun : Value} {plan : Plan}
  {results : List AdapterResult} {w w' : World} {e : Error}

theorem finish_kept (failed : (finish log hash dryRun plan results).run w = (.error e, w')) :
    w'.files = w.files := by
  rw [finish_run] at failed
  split at failed
  · cases failed
  · cases failed
    rfl

theorem close_kept {status : PlanStatus} {reason : Text} (may : plan.status.mayBecome status = true)
    (failed : (moved plan status reason >>= fun p => finish log hash dryRun p results).run w =
      (.error e, w')) : w'.files = w.files := by
  rw [run_bind_ok (moved_ok may reason w)] at failed
  have kept := finish_kept failed
  exact kept

variable {verdict : Value} (hashed : Verdict.contentHash verdict = .ok hash)
include hashed

/-- Closing a valid plan ends in no rejection. -/
theorem finish_not_rejected (valid : plan.Valid)
    (final : plan.status = .verified ∨ plan.status = .failed) (settled : ∀ r ∈ results, r.Valid)
    (dry : ∃ b, dryRun = .bool b) (clock : w.clock.Proper)
    (failed : (finish log hash dryRun plan results).run w = (.error e, w')) :
    e.rejects = false := by
  have clean := finish_record_clean hashed valid final settled dry clock
  rw [finish_run] at failed
  split at failed
  · cases failed
  · rename_i unwritten
    cases failed
    exact append_not_rejected clean unwritten

theorem close_not_rejected {status : PlanStatus} {reason : Text} (valid : plan.Valid)
    (may : plan.status.mayBecome status = true) (final : status = .verified ∨ status = .failed)
    (full : Text.isBlankText reason = false) (settled : ∀ r ∈ results, r.Valid)
    (dry : ∃ b, dryRun = .bool b) (clock : w.clock.Proper)
    (failed : (moved plan status reason >>= fun p => finish log hash dryRun p results).run w =
      (.error e, w')) :
    e.rejects = false := by
  rw [run_bind_ok (moved_ok may reason w)] at failed
  have stepped : (plan.step status (w.clock.reading w.clock.asked) reason).Valid :=
    Plan.step_valid valid (clock w.clock.asked) full
  have ticked : w.ticked.clock.Proper := clock.tick
  exact finish_not_rejected hashed stepped final settled dry ticked failed

end

section

variable {log : FilePath} {hash : String} {options : Options} {verdict : Value} {plan : Plan}
  {adapters : List Adapter} {w w' : World} {e : Error}
  (hashed : Verdict.contentHash verdict = .ok hash) (valid : plan.Valid)
  (dry : ∃ b, options.dryRun = .bool b) (clock : w.clock.Proper)
include hashed valid dry clock

/-- An end of an execution that fails with no rejection and leaves the files as they were. -/
theorem withhold_not_rejected (may : plan.status.mayBecome .verified = true)
    (failed : (withhold log hash options plan).run w = (.error e, w')) :
    e.rejects = false ∧ w'.files = w.files := by
  let reason := if options.dryRun.truthy then "dry-run" else "no auto-exec"
  have full : Text.isBlankText reason = false := by
    dsimp only [reason]
    split <;> decide
  have closing : (moved plan .verified reason >>=
    fun p => finish log hash options.dryRun p []).run w
      = (.error e, w') := failed
  exact ⟨close_not_rejected hashed valid may (Or.inl rfl) full (List.forall_mem_nil _) dry clock
    closing, close_kept may closing⟩

theorem skip_not_rejected (may : plan.status.mayBecome .verified = true)
    (failed : (skip log hash options plan).run w = (.error e, w')) :
    e.rejects = false ∧ w'.files = w.files := by
  have named : Text.isBlankText "idempotency" = false := by decide
  have full : Text.isBlankText "already executed (idempotent skip)" = false := by decide
  have result : (skipped plan.requestId (w.clock.reading w.clock.asked)).Valid :=
    ⟨named, clock w.clock.asked⟩
  have ticked : w.ticked.clock.Proper := clock.tick
  rw [skip, run_bind_ok (time_run w)] at failed
  have kept := close_kept may failed
  exact ⟨close_not_rejected hashed valid may (Or.inl rfl) full (List.forall_mem_singleton.2 result)
    dry ticked failed, kept⟩

/-- Once a plan may be executed, an error on the way is no rejection and leaves the files alone. -/
theorem carryOut_not_rejected (may : plan.status.mayBecome .executed = true)
    (proper : ∀ a ∈ adapters, a.Proper)
    (failed : (carryOut log hash options verdict plan adapters).run w = (.error e, w')) :
    e.rejects = false ∧ w'.files = w.files := by
  have full : Text.isBlankText "executing adapters" = false := by decide
  let started := plan.step .executed (w.clock.reading w.clock.asked) "executing adapters"
  let request : Request := ⟨plan.requestId, plan.runId, verdict, started⟩
  have recorded := runAdapters_valid plan.finalAction request 0 proper (w := w.ticked) clock.tick
  obtain ⟨-, -, -, -, files, -⟩ := runAdapters_run plan.finalAction request 0 adapters w.ticked
  rw [carryOut, run_bind_ok (moved_ok may _ w), run_bind_ok (run_monadLift _)] at failed
  let results := (runAdapters plan.finalAction request 0 adapters w.ticked).1
  have ends := conclusion_ends results
  have begun : started.Valid := Plan.step_valid valid (clock w.clock.asked) full
  exact ⟨close_not_rejected hashed begun ends.1 (conclusion_final results) ends.2 recorded.1 dry
    recorded.2 failed, (close_kept ends.1 failed).trans files⟩

end

theorem mark_ends (files : Files) (place : FilePath) (id : Text) :
    Files.Keeps files (Store.mark files place id).2 ∧
      ∀ e, (Store.mark files place id).1 = .error e → e.rejects = false := by
  unfold Store.mark
  split
  · rename_i made created
    refine ⟨Files.createNew_keeps created, fun e failed => ?_⟩
    obtain ⟨m, unencoded, rfl⟩ := mapError_eq_error.1 failed
    exact encoded_not_rejected (map_eq_error unencoded)
  · exact ⟨.refl files, fun e failed => nomatch failed⟩
  · exact ⟨.refl files, fun e failed => by cases failed; rfl⟩

/-- A claim loses no file, and fails with no rejection. -/
theorem store_claim_ends (s : Store) (files : Files) (id : Value) :
    Files.Keeps files (s.claim files id).2.2 ∧
      ∀ e, (s.claim files id).1 = .error e → e.rejects = false := by
  cases s with
  | memory claimed =>
      simp only [Store.claim, Store.isClaimed]
      cases id.hashable with
      | false => exact ⟨.refl files, fun e failed => by cases failed; rfl⟩
      | true =>
          cases claimed.any fun other => other.same id <;>
            exact ⟨.refl files, fun e failed => by cases failed⟩
  | fixed answer => exact ⟨.refl files, fun e failed => by cases failed⟩
  | directory path =>
      cases id with
      | str s => exact mark_ends files _ s
      | null | bool _ | int _ | float _ | list _ | object _ =>
          exact ⟨.refl files, fun e failed => by cases failed; rfl⟩

theorem openDirectory_ok {files files' : Files} {path : FilePath} {s : Store}
    (h : Store.openDirectory files path = .ok (s, files')) : Files.Keeps files files' := by
  obtain ⟨made, making, same⟩ := bind_eq_ok h
  cases same
  exact (Files.makeDirectory_sameFiles (mapError_eq_ok.1 making)).keeps

theorem openDirectory_error {files : Files} {path : FilePath} {e : Error}
    (h : Store.openDirectory files path = .error e) : e.rejects = false := by
  rw [Store.openDirectory] at h
  cases made : files.makeDirectory path with
  | error fault =>
      rw [made] at h
      cases h
      rfl
  | ok made' =>
      rw [made] at h
      cases h

/-- A claim uses no adapter, asks no clock and loses no file; what it fails with is no rejection. -/
structure Claims (r : Except Error Bool × World) (w : World) : Prop where
  invoked : r.2.invoked = w.invoked
  clock : r.2.clock = w.clock
  files : Files.Keeps w.files r.2.files
  error : ∀ e, r.1 = .error e → e.rejects = false

namespace Claims

variable {w : World}

theorem failed {e : Error} (h : e.rejects = false) : Claims (.error e, w) w :=
  ⟨rfl, rfl, .refl _, fun _ same => Except.error.inj same ▸ h⟩

theorem ended {free : Bool} {w' : World} (invoked : w'.invoked = w.invoked)
    (clock : w'.clock = w.clock) (files : Files.Keeps w.files w'.files) : Claims (.ok free, w') w :=
  ⟨invoked, clock, files, fun _ h => nomatch h⟩

theorem earlier {r : Except Error Bool × World} {files : Files} (h : Claims r { w with files })
    (kept : Files.Keeps w.files files) : Claims r w :=
  ⟨h.invoked, h.clock, kept.trans h.files, h.error⟩

/-- The claim with a store, whatever becomes of the store that it leaves. -/
theorem of_store (store : Store) (id : Value) (w : World) (left : Store → Option Store) :
    Claims (ExceptT.run (m := StateM World) (do
      let (free, store', files) := store.claim w.files id
      set { w with files, store := left store' }
      (free : Except Error Bool)) w) w := by
  obtain ⟨kept, fails⟩ := store_claim_ends store w.files id
  exact ⟨rfl, rfl, kept, fails⟩

end Claims

/-- A claim that answers asks no adapter and loses no file; an error of it is no rejection. -/
theorem claim_claims (settings : Settings) (id : Value) (w : World) :
    Claims ((claim settings id).run w) w := by
  obtain ⟨files, clock, shared, invoked⟩ := w
  rw [claim, run_bind_ok (run_get _)]
  cases shared with
  | some store => exact .of_store store id _ some
  | none =>
      dsimp only
      split
      · cases settings.idempotencyDir with
        | str s =>
            dsimp only
            rw [run_bind, run_lift]
            cases opened : Store.openDirectory files (.ofText s) with
            | error e => exact .failed (openDirectory_error opened)
            | ok r =>
                obtain ⟨store, made⟩ := r
                have claims := Claims.of_store store id ⟨made, clock, none, invoked⟩ fun _ => none
                exact claims.earlier (w := ⟨files, clock, none, invoked⟩) (openDirectory_ok opened)
        | null | bool _ | int _ | float _ | list _ | object _ => exact .failed rfl
      · exact .ended rfl rfl (.refl _)

/-- A plan that is to be carried out but was never moved to approved. -/
def Premature (plan : Plan) (options : Options) : Prop :=
  plan.status = .proposed ∧ isWithheld plan options = false

section

variable {settings : Settings} {options : Options} {verdict : Value} {plan : Plan}
  {adapters : List Adapter} {w w' : World} {path : FilePath} {text : String} {e : Error}

theorem logPath_found (logs : options.LogsTo settings path) (found : w.files.read path = .ok text) :
    ∃ files, (logPath settings options).run w = (.ok path, { w with files }) ∧
      Files.SameFiles w.files files := by
  obtain given | ⟨none, s, target, rfl⟩ := logs
  · exact ⟨w.files, logPath_open given settings w, .refl _⟩
  · obtain ⟨files, opened, same⟩ := Audit.openLog_of_read found
    refine ⟨files, ?_, same⟩
    rw [logPath_opened none target, opened]

/-- What an execution makes of a verdict and a plan that meet their contracts. -/
theorem accept_eq (clean : Contract.verdictIssues verdict = []) (valid : plan.Valid) :
    accept verdict plan =
      if plan.runId.same (runIdOf verdict) = false then
        .error (.foreignPlan plan.runId (runIdOf verdict))
      else if plan.status = .proposed ∨ plan.status = .approved then .ok ()
      else .error (.invalidTransition plan.status .executed) := by
  have readable := Verdict.readable_of_clean clean
  obtain ⟨run, hrun, hid⟩ := readable.run
  have checked := Contract.plan_check.2 valid
  simp only [accept, Verdict.accept_of_clean clean, checked, hrun, hid, bind, Except.bind,
    Misfit.lift, mapError_ok]
  cases plan.runId.same (runIdOf verdict) with
  | false => rfl
  | true => cases plan.status <;> rfl

/-- A plan that is only proposed is refused at its transition, before anything is written. -/
theorem carryOut_premature {hash : String} (premature : plan.status = .proposed) :
    (carryOut path hash options verdict plan adapters).run w =
      (.error (.invalidTransition .proposed .executed), w.ticked) := by
  rw [carryOut]
  apply run_bind_error
  rw [moved_run, Plan.transitionTo, premature]
  rfl

/-- After acceptance no error loses a file, and the only rejection is that of a plan that is carried
out too early. -/
theorem opened_rejection {hash : String} (hashed : Verdict.contentHash verdict = .ok hash)
    (valid : plan.Valid) (dry : ∃ b, options.dryRun = .bool b) (clock : w.clock.Proper)
    (proper : ∀ a ∈ adapters, a.Proper)
    (live : plan.status = .proposed ∨ plan.status = .approved)
    (ran : ExceptT.run (if isWithheld plan options then withhold path hash options plan
        else do
          if ← claim settings plan.requestId then carryOut path hash options verdict plan adapters
          else skip path hash options plan) w = (.error e, w')) :
    Files.Keeps w.files w'.files ∧
    (e.rejects = true → e = .invalidTransition .proposed .executed ∧ Premature plan options ∧
      ∃ v, (claim settings plan.requestId).run w = (.ok true, v) ∧ w' = v.ticked) := by
  have verifies : plan.status.mayBecome .verified = true := by
    obtain h | h := live <;> rw [h] <;> rfl
  have harmless {P : Prop} {v : World} (kept : Files.Keeps w.files v.files)
      (ends : e.rejects = false ∧ w'.files = v.files) :
      Files.Keeps w.files w'.files ∧ (e.rejects = true → P) := by
    refine ⟨by rw [ends.2]; exact kept, fun rejects => ?_⟩
    rw [ends.1] at rejects
    cases rejects
  split at ran
  · exact harmless (.refl _) (withhold_not_rejected hashed valid dry clock verifies ran)
  · rename_i goes
    have claims := claim_claims settings plan.requestId w
    rcases claimed : (claim settings plan.requestId).run w with ⟨r, v⟩
    rw [claimed] at claims
    have ticking : v.clock.Proper := claims.clock ▸ clock
    rw [run_bind, claimed] at ran
    cases r with
    | error e' =>
        cases ran
        exact harmless claims.files ⟨claims.error _ rfl, rfl⟩
    | ok free =>
        cases free with
        | false =>
            exact harmless claims.files (skip_not_rejected hashed valid dry ticking verifies ran)
        | true =>
            obtain premature | approved := live
            · have ends := (carryOut_premature premature).symm.trans ran
              cases ends
              exact ⟨claims.files, fun _ => ⟨rfl, ⟨premature, by simpa using goes⟩, v, rfl, rfl⟩⟩
            · have executes : plan.status.mayBecome .executed = true := by rw [approved]; rfl
              exact harmless claims.files
                (carryOut_not_rejected hashed valid dry ticking executes proper ran)

/-- An execution that ends in an error leaves the log as it was. One that is rejected has used no
adapter either, and it has left the store and the files as they were, but for one rejection: a plan
that belongs to the run and is to be carried out without ever having been approved is refused only
after its request id is claimed. -/
theorem rejection_atomic (clean : Contract.verdictIssues verdict = [])
    (valid : Contract.planIssues plan.toValue = []) (dry : ∃ b, options.dryRun = .bool b)
    (clock : w.clock.Proper) (proper : ∀ a ∈ adapters, a.Proper)
    (logs : options.LogsTo settings path) (found : w.files.read path = .ok text)
    (ran : (execute settings options verdict plan adapters).run w = (.error e, w')) :
    w'.files.lookup path = some (.file text) ∧
    (e.rejects = true → w'.invoked = w.invoked ∧
      (e ≠ .invalidTransition .proposed .executed →
        w'.store = w.store ∧ Files.SameFiles w.files w'.files) ∧
      (e = .invalidTransition .proposed .executed ↔
        Premature plan options ∧ plan.runId.same (runIdOf verdict) = true) ∧
      ∀ claimed, w.store = some (.memory claimed) → e = .invalidTransition .proposed .executed →
        (claimed.any fun other => other.same plan.requestId) = false ∧
        w'.store = some (.memory (claimed ++ [plan.requestId]))) := by
  have valid := Contract.planIssues_clean.1 valid
  have stands := (Files.lookup_of_read found).2.2
  have accepts := accept_eq clean valid
  cases same : plan.runId.same (runIdOf verdict) with
  | false =>
      rw [if_pos same] at accepts
      rw [execute_refused accepts] at ran
      cases ran
      exact ⟨stands, fun _ => ⟨rfl, fun _ => ⟨rfl, .refl _⟩,
        ⟨fun h => (nomatch h), fun h => (nomatch h.2)⟩, fun _ _ h => (nomatch h)⟩⟩
  | true =>
      rw [if_neg (by simp [same])] at accepts
      by_cases live : plan.status = .proposed ∨ plan.status = .approved
      · rw [if_pos live] at accepts
        obtain ⟨files, opened, kept⟩ := logPath_found (w := w) logs found
        cases hashed : Verdict.contentHash verdict with
        | error m =>
            rw [execute_unhashed accepts opened hashed] at ran
            cases ran
            refine ⟨kept.keeps _ _ stands, fun rejects => ?_⟩
            rw [encoded_not_rejected (map_eq_error hashed)] at rejects
            cases rejects
        | ok hash =>
            rw [execute_opened accepts opened hashed] at ran
            obtain ⟨keeps, late⟩ :=
              opened_rejection (w := { w with files }) hashed valid dry clock proper live ran
            refine ⟨keeps _ _ (kept.keeps _ _ stands), fun rejects => ?_⟩
            obtain ⟨rfl, premature, v, claimed, rfl⟩ := late rejects
            have claims := claim_claims settings plan.requestId { w with files }
            rw [claimed] at claims
            refine ⟨claims.invoked, fun h => (h rfl).elim,
              ⟨fun _ => ⟨premature, rfl⟩, fun _ => rfl⟩,
              fun ids shared _ => ?_⟩
            rw [claim_run (w := { w with files }) shared settings (requestId_hashable valid)]
              at claimed
            split at claimed
            · cases claimed
            · rename_i new
              cases claimed
              exact ⟨by simpa using new, rfl⟩
      · rw [if_neg live] at accepts
        rw [execute_refused accepts] at ran
        cases ran
        refine ⟨stands, fun _ => ⟨rfl, fun _ => ⟨rfl, .refl _⟩, ⟨fun h => ?_, fun h => ?_⟩,
          fun _ _ h => ?_⟩⟩
        · exact (live (Or.inl (by injection h))).elim
        · exact (live (Or.inl h.1.1)).elim
        · exact (live (Or.inl (by injection h))).elim

end

def rollbackPlan (status : PlanStatus) : Plan where
  requestId := .str "AR-1"
  runId := .str "run-1"
  proposedAction := .str "KILL_AND_ROLLBACK"
  finalAction := .str "KILL_AND_ROLLBACK"
  confidence := .int 0
  learningMode := .bool false
  approved := .bool true
  status
  history := []

theorem rollbackPlan_clean (status : PlanStatus) :
    Contract.planIssues (rollbackPlan status).toValue = [] := by
  cases status <;> decide +kernel

def blankWorld : World := ⟨Audit.blankFiles, stoppedClock, some (.memory []), []⟩

theorem rejection_atomic_verified :
    Contract.verdictIssues Verdict.rollback = [] ∧
      Contract.planIssues (rollbackPlan .verified).toValue = [] ∧
      blankWorld.clock.Proper ∧ (∀ a ∈ [mute], a.Proper) ∧
      earnest.LogsTo .default ["audit.jsonl"] ∧ blankWorld.files.read ["audit.jsonl"] = .ok "" ∧
      ∃ e w', (execute .default earnest Verdict.rollback (rollbackPlan .verified) [mute]).run
          blankWorld = (.error e, w') ∧ e.rejects = true ∧
        w'.store = blankWorld.store ∧ Files.SameFiles blankWorld.files w'.files := by
  have muted : ∀ a ∈ [mute], a.Proper := List.forall_mem_singleton.2 mute_proper
  have logs : earnest.LogsTo .default ["audit.jsonl"] := Or.inl rfl
  have found : blankWorld.files.read ["audit.jsonl"] = .ok "" := by rfl
  have valid := Contract.planIssues_clean.1 (rollbackPlan_clean .verified)
  have refused : accept Verdict.rollback (rollbackPlan .verified) =
      .error (.invalidTransition .verified .executed) := accept_eq Verdict.rollback_clean valid
  have ran : (execute .default earnest Verdict.rollback (rollbackPlan .verified) [mute]).run
      blankWorld = (.error (.invalidTransition .verified .executed), blankWorld) :=
    execute_refused refused
  obtain ⟨-, rejected⟩ := rejection_atomic Verdict.rollback_clean (rollbackPlan_clean .verified)
    ⟨false, rfl⟩ stoppedClock_proper muted logs found ran
  obtain ⟨-, unchanged, -⟩ := rejected rfl
  exact ⟨Verdict.rollback_clean, rollbackPlan_clean .verified, stoppedClock_proper, muted, logs,
    found, _, _, ran, rfl, unchanged (fun h => nomatch h)⟩

/-- A plan that was approved without being moved to approved loses its request id to an execution
that is refused, although nothing is executed or written. -/
theorem rejected_plan_claims :
    Contract.verdictIssues Verdict.rollback = [] ∧
      Contract.planIssues (rollbackPlan .proposed).toValue = [] ∧
      blankWorld.clock.Proper ∧ Audit.verify blankWorld.files ["audit.jsonl"] = .ok [] ∧
      ∃ w', (execute .default earnest Verdict.rollback (rollbackPlan .proposed) []).run blankWorld =
          (.error (.invalidTransition .proposed .executed), w') ∧
        blankWorld.store = some (.memory []) ∧ w'.store = some (.memory [.str "AR-1"]) := by
  have valid := Contract.planIssues_clean.1 (rollbackPlan_clean .proposed)
  have accepted : accept Verdict.rollback (rollbackPlan .proposed) = .ok () :=
    accept_eq Verdict.rollback_clean valid
  have opened : (logPath .default earnest).run blankWorld = (.ok ["audit.jsonl"], blankWorld) :=
    logPath_open rfl .default blankWorld
  obtain ⟨_, -, hashed⟩ := Verdict.contentHash_ok rollbackCall_encodable.verdict
  have ran : (execute .default earnest Verdict.rollback (rollbackPlan .proposed) []).run
      blankWorld = _ := execute_claiming accepted opened hashed rfl rfl rfl
  rw [carryOut_premature rfl] at ran
  exact ⟨Verdict.rollback_clean, rollbackPlan_clean .proposed, stoppedClock_proper, by rfl, _, ran,
    rfl, rfl⟩

end Execution

end ReleaseGate
