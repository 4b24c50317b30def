import ReleaseGate.Audit.Log
import ReleaseGate.Execution.Outcome
import ReleaseGate.Execution.Store
import ReleaseGate.Plan.Gate
import ReleaseGate.Settings

/-!
Execution of a plan. A plan that is held, unapproved or run dry is verified without any adapter; one
whose request id is taken already is skipped; any other one claims its id and runs the adapters in
order, up to the first that fails. Every way that ends in an outcome appends one entry to the audit
log.
-/

namespace ReleaseGate.Execution

structure Invocation where
  position : Nat
  action : Value
  requestId : Value
  deriving DecidableEq

structure World where
  files : Files
  clock : Clock
  /-- The store that the caller shares between executions, if any. -/
  store : Option Store
  /-- The uses of adapters so far, in order. -/
  invoked : List Invocation

structure Options where
  dryRun : Value
  /-- A log that is open already. -/
  log : Option FilePath
  /-- The path of the log to open otherwise. -/
  auditPath : Value

abbrev Run := ExceptT Error (StateM World)

def clocked {α : Type} (x : StateM Clock α) : StateM World α := fun w =>
  ((x w.clock).1, { w with clock := (x w.clock).2 })

def time : Run Text := ExceptT.lift (clocked now)

/-- Refuses what is no pair of a verdict and a plan for it that is still to be executed. -/
def accept (verdict : Value) (plan : Plan) : Except Error Unit := do
  Verdict.accept verdict
  plan.check
  let run ← Misfit.lift (do (← verdict.need "run").need "run_id")
  if !plan.runId.same run then throw (.foreignPlan plan.runId run)
  if plan.status ≠ .proposed ∧ plan.status ≠ .approved then
    throw (.invalidTransition plan.status .executed)

/-- The path of the log of an execution, which is opened if it is not open already. -/
def logPath (settings : Settings) (options : Options) : Run FilePath := do
  match options.log with
  | some path => return path
  | none =>
      let given := if options.auditPath.truthy then options.auditPath else settings.auditPath
      match given with
      | .str s =>
          let path := FilePath.ofText s
          let w ← get
          let files ← Audit.openLog w.files path
          set { w with files }
          return path
      | _ => throw (.misfit .wrongType)

def moved (plan : Plan) (status : PlanStatus) (reason : Text) : Run Plan := do
  let timestamp ← time
  plan.transitionTo status (.str timestamp) (.str reason)

def finish (log : FilePath) (verdictHash : String) (dryRun : Value) (plan : Plan)
    (results : List AdapterResult) : Run Outcome := do
  let timestamp ← time
  let w ← get
  let (entry, files) ← Audit.append w.files log
    (auditRecord plan verdictHash results dryRun timestamp)
  set { w with files }
  return ⟨plan, results, entry.entryHash.display⟩

/-- Claims the request id with the shared store, or else with one that the settings name, or else
with one that forgets it after this execution. -/
def claim (settings : Settings) (requestId : Value) : Run Bool := do
  let w ← get
  match w.store with
  | some store => do
      let (free, store, files) := store.claim w.files requestId
      set { w with files, store := some store }
      free
  | none =>
      if settings.idempotencyDir.truthy then
        match settings.idempotencyDir with
        | .str s => do
            let (store, files) ← Store.openDirectory w.files (.ofText s)
            let (free, _, files) := store.claim files requestId
            set { w with files }
            free
        | _ => throw (.misfit .wrongType)
      else return true

/-- Runs the adapters in order, up to the first that fails. -/
def runAdapters (action : Value) (request : Request) (position : Nat) :
    List Adapter → StateM World (List AdapterResult)
  | [] => pure []
  | a :: rest => do
      if a.perform.isSome then
        modify fun w =>
          { w with invoked := w.invoked ++ [⟨position, action, request.requestId⟩] }
      let result ← clocked (a.run action request)
      if result.status = .failed then return [result]
      return result :: (← runAdapters action request (position + 1) rest)

def conclusion (results : List AdapterResult) : PlanStatus × Text :=
  match results.find? fun r => r.status = .failed with
  | some r =>
      let message := r.message.getD ""
      (.failed, "adapter " ++ r.adapter ++ " failed: " ++
        if message = "" then ↑"no message" else message)
  | none => (.verified, "all adapters succeeded")

/-- The result that stands for the adapters of a plan that has been executed before. -/
def skipped (requestId : Value) (timestamp : Text) : AdapterResult :=
  ⟨"idempotency", .skipped, timestamp,
    some ("action request " ++ requestId.display ++ " already executed")⟩

/-- Whether a plan must be finished without any adapter. -/
def isWithheld (plan : Plan) (options : Options) : Bool :=
  plan.finalAction = Plan.holdAction || !plan.approved.truthy || options.dryRun.truthy

def execute (settings : Settings) (options : Options) (verdict : Value) (plan : Plan)
    (adapters : List Adapter) : Run Outcome := do
  accept verdict plan
  let log ← logPath settings options
  let hash ← Misfit.lift (Verdict.contentHash verdict)
  let finish := finish log hash options.dryRun
  if isWithheld plan options then
    let reason := if options.dryRun.truthy then "dry-run" else "no auto-exec"
    finish (← moved plan .verified reason) []
  else if ← claim settings plan.requestId then
    let started ← moved plan .executed "executing adapters"
    let request : Request := ⟨plan.requestId, plan.runId, verdict, started⟩
    let results ← ExceptT.lift (runAdapters plan.finalAction request 0 adapters)
    let (status, reason) := conclusion results
    finish (← moved started status reason) results
  else
    let result := skipped plan.requestId (← time)
    finish (← moved plan .verified "already executed (idempotent skip)") [result]

end ReleaseGate.Execution
