import ReleaseGate.Proofs.Contract.Order
import ReleaseGate.Proofs.Execution.Audited
import ReleaseGate.Proofs.Execution.Authority

/-!
Verdicts that are planned for and executed one after another, on one log and one store in memory.
Whatever the adapters do, a call returns an outcome whose plan is finished and leaves one entry in
the log: the valid record of that outcome, in a chain that is whole. Only half a surrogate pair in
what a call is given can keep it from that; then it ends without an outcome and without an entry.
-/

namespace ReleaseGate.Execution

open Audit (Entry Holds genesisHash entryHashField)

/-- A verdict that is planned for and executed, with the clocks that each of the two meets. -/
structure Call where
  settings : Settings
  options : Options
  verdict : Value
  threshold : Value
  adapters : List Adapter
  planClock : Clock
  clock : Clock

namespace Call

def run (c : Call) (files : Files) (store : Store) : Except Error Outcome × Files × Store :=
  match ((Plan.ofVerdict c.verdict c.threshold).run c.planClock).1 with
  | .error e => (.error e, files, store)
  | .ok plan =>
      let after := (execute c.settings c.options c.verdict plan c.adapters).run
        ⟨files, c.clock, some store, []⟩
      (after.1, after.2.files, after.2.store.getD store)

theorem run_planned {c : Call} {files : Files} {store : Store} {plan : Plan} {after : Clock}
    {result : Except Error Outcome} {w : World}
    (planned : (Plan.ofVerdict c.verdict c.threshold).run c.planClock = (.ok plan, after))
    (ran : (execute c.settings c.options c.verdict plan c.adapters).run
      ⟨files, c.clock, some store, []⟩ = (result, w)) :
    c.run files store = (result, w.files, w.store.getD store) := by
  rw [run, planned]
  simp only [ran]

/-- A call that is made as it should be, for a log: the verdict meets its contract, the threshold is
one, the run is dry or not, and no clock reads blank. Its adapters may do what they like. -/
structure Proper (c : Call) (path : FilePath) : Prop where
  clean : Contract.verdictIssues c.verdict = []
  share : Plan.IsThreshold c.threshold
  dry : ∃ b, c.options.dryRun = .bool b
  planClock : c.planClock.Proper
  clock : c.clock.Proper
  adapters : ∀ a ∈ c.adapters, a.Proper
  logs : c.options.LogsTo c.settings path

/-- A call that is given strings only: by its verdict, its clocks and its adapters. -/
structure Encodable (c : Call) : Prop where
  verdict : c.verdict.isEncodable = true
  planClock : c.planClock.Encodable
  clock : c.clock.Encodable
  adapters : ∀ a ∈ c.adapters, a.Encodable

end Call

/-- Calls one after another, whatever the results. -/
def calls (files : Files) (store : Store) :
    List Call → List (Except Error Outcome) × Files × Store
  | [] => ([], files, store)
  | c :: cs =>
      let now := c.run files store
      let later := calls now.2.1 now.2.2 cs
      (now.1 :: later.1, later.2)

section

variable {path : FilePath} {es : List Entry}

/-- The execution of the plan for a verdict is recorded, whichever way it ends, if it is given
strings only. -/
theorem execute_logs {verdict threshold : Value} (clean : Contract.verdictIssues verdict = [])
    {hash : String} (hashed : Verdict.contentHash verdict = .ok hash)
    (encodable : verdict.isEncodable = true) {d : Plan.Decision} (sound : d.Sound verdict threshold)
    {id : String} (identified : Plan.requestIdOf verdict d = .ok id) {timestamp : Text}
    (time : Text.isBlankText timestamp = false) {settings : Settings} {options : Options}
    (dry : ∃ b, options.dryRun = .bool b) (logs : options.LogsTo settings path)
    {adapters : List Adapter} (proper : ∀ a ∈ adapters, a.Proper) {w : World}
    (ready : Ready w path es) {claimed : List Value} (shared : w.store = some (.memory claimed)) :
    ∃ now, Logs (execute settings options verdict (Plan.opened id verdict d timestamp)
      adapters) hash
      options.dryRun path es w (some (.memory now))
      (timestamp.isString = true ∧ w.clock.Encodable ∧ ∀ a ∈ adapters, a.Encodable) := by
  let plan := Plan.opened id verdict d timestamp
  have accepted : accept verdict plan = .ok () := accept_opened clean sound identified time
  have valid : plan.Valid := accepted_plan accepted
  have walked : plan.Walked := Plan.opened_walked id verdict d timestamp
  have texts (read : timestamp.isString = true) : plan.Encodable :=
    Plan.opened_encodable encodable sound id read
  have verifies : plan.status.mayBecome .verified = true := by
    show d.status.mayBecome .verified = true
    unfold Plan.Decision.status
    split <;> rfl
  obtain ⟨v, opens, readyLog, store, clock⟩ := logPath_ready logs ready
  rw [← clock]
  cases held : isWithheld plan options with
  | true =>
      have ends := withhold_logs hashed readyLog valid walked dry verifies
      rw [store, shared] at ends
      exact ⟨claimed, (ends.of_run (execute_withheld accepted opens hashed held)).mono
        fun given => ⟨texts given.1, given.2.1⟩⟩
  | false =>
      cases taken : claimed.any fun other => other.same plan.requestId with
      | true =>
          have ends := skip_logs hashed readyLog valid walked dry verifies
          rw [store, shared] at ends
          exact ⟨claimed, (ends.of_run
            (execute_taken accepted opens hashed held shared taken)).mono
            fun given => ⟨texts given.1, given.2.1⟩⟩
      | false =>
          have approves := ((isWithheld_opened sound id timestamp options).1 held).2
          have executes : plan.status.mayBecome .executed = true := by
            rw [status_opened sound id timestamp approves]
            rfl
          have claims :
              Ready { v with store := some (.memory (claimed ++ [plan.requestId])) } path es :=
            ⟨readyLog.holds, readyLog.clock⟩
          exact ⟨_, ((carryOut_logs hashed claims valid walked dry executes proper).of_run
            (execute_claiming accepted opens hashed held shared taken)).mono
            fun given => ⟨texts given.1, given.2⟩⟩

end

/-- An entry that says of a call what its outcome says; a reader meets the members of all objects in
the order of their names. -/
structure Outcome.Told (o : Outcome) (c : Call) (e : Entry) : Prop where
  valid : Contract.auditIssues (.object e.record) = .ok []
  record : ∃ (hash : String) (timestamp : Text), Verdict.contentHash c.verdict = .ok hash ∧
    .object e.record = Json.sorted (auditRecord o.plan hash o.results c.options.dryRun timestamp)
  requestId : e.field "action_request_id" = o.plan.requestId
  verdictHash : ∃ hash : String, Verdict.contentHash c.verdict = .ok hash ∧
    e.field "verdict_hash" = .str hash
  status : e.field "status" = .str o.plan.status.name
  transitions : e.field "status_transitions" =
    Json.sorted (.list (o.plan.history.map Transition.toValue))
  results : e.field "adapter_results" =
    Json.sorted (.list (o.results.map AdapterResult.toValue))
  entryHash : e.entryHash = .str o.entryHash

namespace Outcome.Recorded

section

variable {hash : String} {dryRun : Value} {o : Outcome} {e : Entry}
  (recorded : o.Recorded hash dryRun e)
include recorded

theorem own : Audit.own e.record = e.record := by
  obtain ⟨timestamp, same⟩ := recorded.record
  have members := auditRecord_own o.plan hash timestamp o.results dryRun
  rwa [← same] at members

theorem intact (wellFormed : e.WellFormed) : e.Intact := by
  refine Audit.intact_of_absent wellFormed fun present => ?_
  rw [← recorded.own] at present
  obtain ⟨m, kept, name⟩ := List.mem_map.1 present
  have other := (List.mem_filter.1 kept).2
  rw [name] at other
  exact absurd other (by decide)

end

/-- The entry of a call tells its plan, its outcome and its verdict's hash. -/
theorem told {c : Call} {o : Outcome} {e : Entry} {hash : String}
    (hashed : Verdict.contentHash c.verdict = .ok hash)
    (recorded : o.Recorded hash c.options.dryRun e) (ended : o.Ended)
    (wellFormed : (Value.object e.record).WellFormed) : o.Told c e.asRead := by
  have distinct := (Value.wellFormed_object.1 wellFormed).1
  have read : e.asRead.record = Json.sortedMembers e.record := by
    show Json.sortedMembers (Audit.own e.record) = _
    rw [recorded.own]
  -- What is read under a name is what was written under it, sorted.
  have field (name : Text) : e.asRead.field name =
      (((e.record.lookup name).map Json.sorted).getD .null) := by
    rw [Entry.field, read, Json.lookup_sortedMembers distinct]
  obtain ⟨timestamp, same⟩ := recorded.record
  have clean := (Contract.auditIssues_sorted wellFormed).2 recorded.valid
  rw [Json.sorted, ← read] at clean
  injection same with same
  obtain ⟨s, request, -⟩ := ended.valid.requestId
  refine ⟨clean, ⟨hash, timestamp, hashed, ?_⟩, ?_, ⟨hash, hashed, ?_⟩, ?_, ?_, ?_,
    recorded.entryHash⟩
  · rw [read, same]
    rfl
  · rw [field, same]
    show Json.sorted o.plan.requestId = o.plan.requestId
    rw [request]
    rfl
  · rw [field, same]
    rfl
  · rw [field, same]
    rfl
  · rw [field, same]
    rfl
  · rw [field, same]
    rfl

end Outcome.Recorded

/-- Calls, their results and the entries that they leave, side by side. A call that leaves none was
given half a surrogate pair, and ends in the error for it. -/
inductive Logged : List Call → List (Except Error Outcome) → List Entry → Prop where
  | nil : Logged [] [] []
  | recorded {c : Call} {o : Outcome} {e : Entry} {cs : List Call}
      {results : List (Except Error Outcome)} {es : List Entry} (ended : o.Ended)
        (told : o.Told c e)
      (rest : Logged cs results es) : Logged (c :: cs) (.ok o :: results) (e :: es)
  | unrecorded {c : Call} {cs : List Call} {results : List (Except Error Outcome)} {es : List Entry}
      (reason : ¬ c.Encodable) (rest : Logged cs results es) :
      Logged (c :: cs) (.error (.misfit .notEncodable) :: results) es

/-- Calls that are all given strings only have an outcome and an entry each. -/
theorem Logged.full {cs : List Call} {results : List (Except Error Outcome)} {es : List Entry}
    (h : Logged cs results es) (encodable : ∀ c ∈ cs, c.Encodable) :
    ∃ os : List Outcome, results = os.map .ok ∧ os.length = cs.length ∧ es.length = cs.length ∧
      ∀ (i : Nat) c o e, cs[i]? = some c → os[i]? = some o → es[i]? = some e →
        o.Ended ∧ o.Told c e := by
  induction h with
  | nil => exact ⟨[], rfl, rfl, rfl, fun _ _ _ _ hc => nomatch hc⟩
  | @recorded c o e _ _ _ ended told _ ih =>
      obtain ⟨os, rfl, outcomes, entries, each⟩ := ih (List.forall_mem_cons.1 encodable).2
      refine ⟨o :: os, rfl, congrArg (· + 1) outcomes, congrArg (· + 1) entries, ?_⟩
      rintro (_ | i) c o e hc ho he
      · cases hc
        cases ho
        cases he
        exact ⟨ended, told⟩
      · exact each i c o e hc ho he
  | unrecorded reason _ _ => exact absurd (List.forall_mem_cons.1 encodable).1 reason

section

variable {path : FilePath} {es : List Entry}

/-- How a call leaves a log that holds some entries, and what it returns: an outcome, which is
recorded, or the error for half a surrogate pair that it was given. -/
inductive Call.Leaves (c : Call) (path : FilePath) (es : List Entry) :
    Except Error Outcome → Files → Prop where
  | recorded {o : Outcome} {e : Entry} {files : Files} (holds : Holds files path (es ++ [e]))
      (ended : o.Ended) (intact : e.Intact) (told : o.Told c e.asRead) :
        c.Leaves path es (.ok o) files
  | unrecorded {files : Files} (holds : Holds files path es) (reason : ¬ c.Encodable) :
      c.Leaves path es (.error (.misfit .notEncodable)) files

/-- A call on a verdict without a digest has no plan, and changes nothing. -/
theorem Call.run_unencodable {c : Call} (proper : c.Proper path)
    (half : c.verdict.isEncodable = false) (files : Files) (store : Store) :
    c.run files store = (.error (.misfit .notEncodable), files, store) := by
  rw [run, Plan.ofVerdict_unencodable proper.clean proper.share half]

/-- One call leaves a chain behind: longer by its record, or as it was where the record has no
bytes. -/
theorem Call.run_leaves {c : Call} (proper : c.Proper path) {files : Files}
    (holds : Holds files path es) (claimed : List Value) :
    ∃ result files' now, c.run files (.memory claimed) = (result, files', .memory now) ∧
      c.Leaves path es result files' := by
  cases encodable : c.verdict.isEncodable with
  | false =>
      refine ⟨_, _, _, c.run_unencodable proper encodable files (.memory claimed),
        .unrecorded holds fun given => ?_⟩
      rw [given.verdict] at encodable
      cases encodable
  | true =>
      obtain ⟨_, -, hashed⟩ := Verdict.contentHash_ok encodable
      obtain ⟨d, id, sound, identified, planned⟩ := Plan.ofVerdict_run proper.clean proper.share
        encodable (proper.planClock c.planClock.asked)
      have ready : Ready ⟨files, c.clock, some (.memory claimed), []⟩ path es :=
        ⟨holds, proper.clock⟩
      obtain ⟨now, logs⟩ := execute_logs proper.clean hashed encodable sound identified
        (proper.planClock c.planClock.asked) proper.dry proper.logs proper.adapters ready rfl
      cases logs with
      | @recorded o w e ran ready left ended recorded =>
          have own := List.mem_append_right es (List.mem_singleton_self e)
          refine ⟨.ok o, w.files, now, ?_, .recorded ready.holds ended
            (recorded.intact (ready.holds.goesOn.wellFormed ready.holds.records e own))
            (recorded.told hashed ended (ready.holds.records e own))⟩
          rw [run_planned planned ran, left]
          rfl
      | @unencodable w ran ready left reason =>
          refine ⟨.error (.misfit .notEncodable), w.files, now, ?_, .unrecorded ready.holds
            fun given => reason ⟨given.planClock _, given.clock, given.adapters⟩⟩
          rw [run_planned planned ran, left]
          rfl

end

/-- Calls on one log leave a chain, and an entry for each that returned. -/
theorem calls_logged {path : FilePath} {cs : List Call} (proper : ∀ c ∈ cs, c.Proper path)
    {files : Files} {es : List Entry} (holds : Holds files path es) (intact : ∀ e ∈ es, e.Intact)
    (claimed : List Value) :
    ∃ results files' now more, calls files (.memory claimed) cs = (results, files', .memory now) ∧
      Holds files' path (es ++ more) ∧ (∀ e ∈ es ++ more, e.Intact) ∧
      Logged cs results (more.map Entry.asRead) := by
  induction cs generalizing files es claimed with
  | nil =>
      rw [← List.append_nil es] at holds intact
      exact ⟨[], files, claimed, [], rfl, holds, intact, .nil⟩
  | cons c cs ih =>
      -- The entries that the log holds grow by the one of the first call, if it leaves one.
      obtain ⟨own, others⟩ := List.forall_mem_cons.1 proper
      obtain ⟨result, files₁, now₁, ran, leaves⟩ := Call.run_leaves own holds claimed
      cases leaves with
      | @recorded o e _ holds₁ ended sound told =>
          have intact₁ := List.forall_mem_append.2 ⟨intact, List.forall_mem_singleton.2 sound⟩
          obtain ⟨results, files₂, now₂, more, later, holds₂, all, logged⟩ :=
            ih others holds₁ intact₁ now₁
          rw [List.append_assoc] at holds₂ all
          refine ⟨.ok o :: results, files₂, now₂, e :: more, ?_, holds₂, all,
            .recorded ended told logged⟩
          rw [calls, ran]
          simp only [later]
      | unrecorded holds₁ reason =>
          obtain ⟨results, files₂, now₂, more, later, holds₂, all, logged⟩ :=
            ih others holds₁ intact now₁
          refine ⟨_ :: results, files₂, now₂, more, ?_, holds₂, all, .unrecorded reason logged⟩
          rw [calls, ran]
          simp only [later]

/-- Calls that share a log, which starts empty, and a store in memory. Each call returns an outcome,
whose plan went along edges to a final status, and leaves one entry in the log: a valid record with
the outcome's request, verdict, status, transitions and results, and with the hash that the outcome
names. Only a call that is given half a surrogate pair may end in the error for it instead, and then
it leaves no entry. The chain of the log is whole, and where all calls are given strings only there
is one entry for each of them. -/
theorem calls_recorded {files : Files} {path : FilePath} (empty : files.read path = .ok "")
    (claimed : List Value) {cs : List Call} (proper : ∀ c ∈ cs, c.Proper path) :
    ∃ (results : List (Except Error Outcome)) (files' : Files) (store : Store) (read : List Entry),
      calls files (.memory claimed) cs = (results, files', store) ∧
      Audit.verify files' path = .ok [] ∧ Audit.readAll files' path = .ok read ∧
      Logged cs results read ∧
      ((∀ c ∈ cs, c.Encodable) → ∃ os : List Outcome, results = os.map .ok ∧
        os.length = cs.length ∧ read.length = cs.length ∧
        ∀ (i : Nat) c o e, cs[i]? = some c → os[i]? = some o → read[i]? = some e →
          o.Ended ∧ o.Told c e) := by
  obtain ⟨results, files', now, es, ran, holds, intact, logged⟩ :=
    calls_logged proper (Audit.holds_empty empty) (List.forall_mem_nil _) claimed
  obtain ⟨bs, verified, whole⟩ := Audit.verify_holds holds
  rw [whole.2 intact] at verified
  exact ⟨results, files', .memory now, _, ran, verified, Audit.readAll_holds holds, logged,
    logged.full⟩

theorem proper_of_answer {name : Option Value} {kind : String}
    (named : Text.isBlankText kind = false) (answer : Delivery) :
    Adapter.Proper ⟨name, kind, some fun _ _ => pure answer⟩ := by
  refine ⟨named, ?_⟩
  rintro _ ⟨⟩ _ _ _ proper
  exact proper

theorem mute_proper : mute.Proper := proper_of_answer (by decide) _

def rollbackCall : Call :=
  ⟨.default, earnest, Verdict.rollback, .int 1, [mute], stoppedClock, stoppedClock⟩

theorem rollbackCall_proper : rollbackCall.Proper ["audit.jsonl"] where
  clean := Verdict.rollback_clean
  share := ⟨by decide +kernel, by decide +kernel⟩
  dry := ⟨false, rfl⟩
  planClock := stoppedClock_proper
  clock := stoppedClock_proper
  adapters := List.forall_mem_singleton.2 mute_proper
  logs := Or.inl rfl

theorem mute_encodable : mute.Encodable := by
  intro action request c strings
  obtain ⟨m, result⟩ : ∃ m : String, mute.run action request c =
      (⟨"Mute", .failed, c.reading c.asked, some m⟩, c.tick.2) := ⟨_, rfl⟩
  rw [result, AdapterResult.toValue_isEncodable]
  exact ⟨by simp [strings c.asked], strings.tick⟩

theorem stoppedClock_encodable : stoppedClock.Encodable := fun _ => rfl

theorem rollbackCall_encodable : rollbackCall.Encodable where
  verdict := by decide +kernel
  planClock := stoppedClock_encodable
  clock := stoppedClock_encodable
  adapters := List.forall_mem_singleton.2 mute_encodable

theorem calls_recorded_twice :
    Audit.blankFiles.read ["audit.jsonl"] = .ok "" ∧
      (∀ c ∈ [rollbackCall, rollbackCall], c.Proper ["audit.jsonl"]) ∧
      (∀ c ∈ [rollbackCall, rollbackCall], c.Encodable) ∧
      ∃ (os : List Outcome) (files : Files) (store : Store) (read : List Entry),
        calls Audit.blankFiles (.memory []) [rollbackCall, rollbackCall] =
          (os.map .ok, files, store) ∧
        Audit.readAll files ["audit.jsonl"] = .ok read ∧ read.length = 2 := by
  have empty : Audit.blankFiles.read ["audit.jsonl"] = .ok "" := by rfl
  have proper : ∀ c ∈ [rollbackCall, rollbackCall], c.Proper ["audit.jsonl"] :=
    List.forall_mem_cons.2 ⟨rollbackCall_proper, List.forall_mem_singleton.2 rollbackCall_proper⟩
  have strings : ∀ c ∈ [rollbackCall, rollbackCall], c.Encodable :=
    List.forall_mem_cons.2
      ⟨rollbackCall_encodable, List.forall_mem_singleton.2 rollbackCall_encodable⟩
  obtain ⟨results, files, store, read, ran, -, all, -, full⟩ := calls_recorded empty [] proper
  obtain ⟨os, rfl, -, length, -⟩ := full strings
  exact ⟨empty, proper, strings, os, files, store, read, ran, all, length⟩

def halfSpoken : Adapter :=
  ⟨none, "HalfSpoken", some fun _ _ => pure (.atOnce (.document (.object
    [("status", .str "SUCCESS"), ("message", .str .firstHalf)])))⟩

def halfCall : Call := { rollbackCall with adapters := [halfSpoken] }

/-- The adapter succeeds, and then the call ends in an error: the request id is claimed, and there
is no entry in the log. -/
theorem halfCall_unrecorded :
    Audit.blankFiles.read ["audit.jsonl"] = .ok "" ∧ halfCall.Proper ["audit.jsonl"] ∧
      (∀ action request, (halfSpoken.run action request stoppedClock.tick.2).1.status = .success) ∧
      ∃ id, calls Audit.blankFiles (.memory []) [halfCall] =
        ([.error (.misfit .notEncodable)], Audit.blankFiles, .memory [id]) := by
  have empty : Audit.blankFiles.read ["audit.jsonl"] = .ok "" := by rfl
  have spoken : ∀ a ∈ [halfSpoken], a.Proper :=
    List.forall_mem_singleton.2 (proper_of_answer (by decide) _)
  have proper : halfCall.Proper ["audit.jsonl"] := { rollbackCall_proper with adapters := spoken }
  obtain ⟨text, -, hashed⟩ := Verdict.contentHash_ok rollbackCall_encodable.verdict
  obtain ⟨d, id, sound, identified, planned⟩ := Plan.ofVerdict_run proper.clean proper.share
    rollbackCall_encodable.verdict (proper.planClock stoppedClock.asked)
  let plan := Plan.opened id Verdict.rollback d (stoppedClock.reading stoppedClock.asked)
  let before : World := ⟨Audit.blankFiles, stoppedClock, some (.memory []), []⟩
  let w : World := { before with store := some (.memory [plan.requestId]) }
  have accepted : accept Verdict.rollback plan = .ok () :=
    accept_opened proper.clean sound identified (stoppedClock_proper _)
  have approves : Plan.Approves Verdict.rollback (.int 1) := ⟨rfl, Or.inl rfl⟩
  have held : isWithheld plan earnest = false := (isWithheld_opened sound id _ _).2 ⟨rfl, approves⟩
  have executes : plan.status.mayBecome .executed = true := by
    rw [show plan.status = .approved from status_opened sound id _ approves]
    rfl
  have ready : Ready w ["audit.jsonl"] [] := ⟨Audit.holds_empty empty, stoppedClock_proper⟩
  have opened : (logPath .default earnest).run before = (.ok ["audit.jsonl"], before) :=
    logPath_open rfl .default before
  have claims : (execute .default earnest Verdict.rollback plan [halfSpoken]).run before =
      (carryOut ["audit.jsonl"] (Digest.sha256 text) earnest Verdict.rollback plan [halfSpoken]).run
        w := execute_claiming accepted opened hashed held rfl rfl
  have half : ∃ r ∈ (runAdapters plan.finalAction ⟨plan.requestId, plan.runId, Verdict.rollback,
      plan.step .executed (w.clock.reading w.clock.asked) "executing adapters"⟩ 0 [halfSpoken]
      w.ticked).1, r.toValue.isEncodable = false := by
    rw [runAdapters_cons]
    exact ⟨_, List.mem_cons_self, rfl⟩
  obtain ⟨w', ends, files, store⟩ := carryOut_unencodable hashed ready (accepted_plan accepted)
    (show ∃ b, earnest.dryRun = .bool b from ⟨false, rfl⟩) executes spoken half
  refine ⟨empty, proper, fun _ _ => rfl, plan.requestId, ?_⟩
  have run : halfCall.run Audit.blankFiles (.memory []) =
      (.error (.misfit .notEncodable), w'.files, w'.store.getD (.memory [])) :=
    Call.run_planned planned (claims.trans ends)
  rw [calls, run, files, store]
  rfl

end ReleaseGate.Execution
