import ReleaseGate.Execution.Run
import ReleaseGate.Proofs.Steps

/-!
The steps of an execution, one by one: what each of them does to the shared store and to the uses of
adapters. Only the claim of a request id touches the store, and only running the adapters uses them.
-/

namespace ReleaseGate.Execution

def World.ticked (w : World) : World := { w with clock := w.clock.tick.2 }

theorem time_run (w : World) : time.run w = (.ok (w.clock.reading w.clock.asked), w.ticked) := rfl

theorem moved_run (plan : Plan) (status : PlanStatus) (reason : Text) (w : World) :
    (moved plan status reason).run w =
      (plan.transitionTo status (.str (w.clock.reading w.clock.asked)) (.str reason),
        w.ticked) := by
  rw [moved, run_bind_ok (time_run w), run_lift]

/-- A step that leaves the store alone and uses no adapter. -/
def Quiet {α : Type} (x : Run α) : Prop :=
  ∀ w, (x.run w).2.store = w.store ∧ (x.run w).2.invoked = w.invoked

namespace Quiet

theorem lift {α : Type} (r : Except Error α) : Quiet (liftM r) := fun _ => ⟨rfl, rfl⟩

theorem bind {α β : Type} {x : Run α} {f : α → Run β} (hx : Quiet x) (hf : ∀ a, Quiet (f a)) :
    Quiet (x >>= f) := by
  intro w
  have first := hx w
  rw [run_bind]
  rcases hr : x.run w with ⟨r, w'⟩
  rw [hr] at first
  cases r with
  | error e => exact first
  | ok a =>
      have second := hf a w'
      exact ⟨second.1.trans first.1, second.2.trans first.2⟩

end Quiet

theorem quiet_time : Quiet time := fun _ => ⟨rfl, rfl⟩

theorem quiet_moved (plan : Plan) (status : PlanStatus) (reason : Text) :
    Quiet (moved plan status reason) := quiet_time.bind fun _ => Quiet.lift _

def logTarget (settings : Settings) (options : Options) : Value :=
  if options.auditPath.truthy then options.auditPath else settings.auditPath

theorem logPath_open {options : Options} {path : FilePath} (h : options.log = some path)
    (settings : Settings) (w : World) : (logPath settings options).run w = (.ok path, w) := by
  rw [logPath, h]
  rfl

theorem logPath_opened {settings : Settings} {options : Options} {s : Text}
    (h : options.log = none) (target : logTarget settings options = .str s) (w : World) :
    (logPath settings options).run w =
      match Audit.openLog w.files (.ofText s) with
      | .ok files => (.ok (.ofText s), { w with files })
      | .error e => (.error e, w) := by
  rw [logTarget] at target
  rw [logPath, h]
  simp only [target, run_bind, run_get, run_lift, run_set, run_pure]
  cases Audit.openLog w.files (.ofText s) <;> rfl

theorem quiet_logPath (settings : Settings) (options : Options) :
    Quiet (logPath settings options) := by
  intro w
  cases h : options.log with
  | some path =>
      rw [logPath_open h]
      exact ⟨rfl, rfl⟩
  | none =>
      cases target : logTarget settings options with
      | str s =>
          rw [logPath_opened h target]
          cases Audit.openLog w.files (.ofText s) <;> exact ⟨rfl, rfl⟩
      | null | bool _ | int _ | float _ | list _ | object _ =>
          rw [logTarget] at target
          rw [logPath, h]
          simp only [target]
          exact ⟨rfl, rfl⟩

theorem finish_run (log : FilePath) (verdictHash : String) (dryRun : Value) (plan : Plan)
    (results : List AdapterResult) (w : World) :
    (finish log verdictHash dryRun plan results).run w =
      match Audit.append w.files log
        (auditRecord plan verdictHash results dryRun (w.clock.reading w.clock.asked)) with
      | .ok (entry, files) => (.ok ⟨plan, results, entry.entryHash.display⟩,
        { w.ticked with files })
      | .error e => (.error e, w.ticked) := by
  rw [finish, run_bind_ok (time_run w)]
  have files : w.ticked.files = w.files := rfl
  simp only [run_bind, run_get, run_lift, run_set, run_pure, files]
  cases Audit.append w.files log
    (auditRecord plan verdictHash results dryRun (w.clock.reading w.clock.asked)) <;> rfl

theorem quiet_finish (log : FilePath) (verdictHash : String) (dryRun : Value) (plan : Plan)
    (results : List AdapterResult) : Quiet (finish log verdictHash dryRun plan results) := by
  intro w
  rw [finish_run]
  split <;> exact ⟨rfl, rfl⟩

theorem claim_run {w : World} {claimed : List Value} (shared : w.store = some (.memory claimed))
    (settings : Settings) {id : Value} (hid : id.hashable = true) :
    (claim settings id).run w =
      if claimed.any fun other => other.same id then (.ok false, w)
      else (.ok true, { w with store := some (.memory (claimed ++ [id])) }) := by
  rw [claim, run_bind_ok (run_get w)]
  simp only [shared, Store.claim, Store.isClaimed, hid, if_true]
  cases claimed.any fun other => other.same id with
  | true =>
      obtain ⟨files, clock, store, invoked⟩ := w
      cases shared
      rfl
  | false => rfl

def noted (a : Adapter) (i : Invocation) : List Invocation := if a.perform.isSome then [i] else []

/-- Adapters are run in order, up to the first that fails. -/
theorem runAdapters_cons (action : Value) (request : Request) (position : Nat) (a : Adapter)
    (rest : List Adapter) (w : World) :
    runAdapters action request position (a :: rest) w =
      let settled := a.run action request w.clock
      let w' : World := { w with
        clock := settled.2
        invoked := w.invoked ++ noted a ⟨position, action, request.requestId⟩ }
      if settled.1.status = .failed then ([settled.1], w')
      else
        let later := runAdapters action request (position + 1) rest w'
        (settled.1 :: later.1, later.2) := by
  have result (w' : World) :
      clocked (a.run action request) w' =
        ((a.run action request w'.clock).1,
          { w' with clock := (a.run action request w'.clock).2 }) :=
    rfl
  have note (f : World → World) (w' : World) : (modify f : StateM World PUnit) w' =
    (⟨⟩, f w') := rfl
  cases able : a.perform.isSome <;>
    simp only [runAdapters, noted, able, if_true, Bool.false_eq_true, if_false, bind, StateT.bind,
      pure, note, result, List.append_nil]
  · split <;> rfl
  · split <;> rfl

def Uses (action : Value) (request : Request) (used : List Invocation) : Prop :=
  ∀ i ∈ used, i.action = action ∧ i.requestId = request.requestId

theorem uses_noted (a : Adapter) (position : Nat) (action : Value) (request : Request) :
    Uses action request (noted a ⟨position, action, request.requestId⟩) := by
  intro i hi
  unfold noted at hi
  split at hi
  · rw [List.mem_singleton.1 hi]
    exact ⟨rfl, rfl⟩
  · cases hi

theorem noted_ne_nil {a : Adapter} (able : a.perform.isSome = true) (i : Invocation) :
    noted a i ≠ [] := by
  simp [noted, able]

/-- Running adapters uses them for the one action and request, and leaves store and files alone. -/
theorem runAdapters_run (action : Value) (request : Request) (position : Nat)
    (adapters : List Adapter) (w : World) :
    ∃ used, Uses action request used ∧
      (runAdapters action request position adapters w).2.invoked = w.invoked ++ used ∧
      (runAdapters action request position adapters w).2.store = w.store ∧
      (runAdapters action request position adapters w).2.files = w.files ∧
      ∀ a ∈ adapters.head?, a.perform.isSome = true → used ≠ [] := by
  induction adapters generalizing position w with
  | nil =>
      exact ⟨[], List.forall_mem_nil _, (List.append_nil _).symm, rfl, rfl, fun _ h => (nomatch h)⟩
  | cons a rest ih =>
      have own := uses_noted a position action request
      rw [runAdapters_cons]
      dsimp only
      split
      · refine ⟨_, own, rfl, rfl, rfl, ?_⟩
        rintro _ ⟨⟩ able
        exact noted_ne_nil able _
      · obtain ⟨later, uses, invoked, store, files, -⟩ := ih (position + 1) { w with
          clock := (a.run action request w.clock).2
          invoked := w.invoked ++ noted a ⟨position, action, request.requestId⟩ }
        refine ⟨_ ++ later, List.forall_mem_append.2 ⟨own, uses⟩, ?_, store, files, ?_⟩
        · rw [invoked, List.append_assoc]
        · rintro _ ⟨⟩ able
          exact List.append_ne_nil_of_left_ne_nil (noted_ne_nil able _) later

end ReleaseGate.Execution
