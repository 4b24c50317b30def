import ReleaseGate.Proofs.Audit.Uses
import ReleaseGate.Proofs.Execution.Encodable

/-!
One execution of an approved or held plan on a log that holds a chain. Whatever the adapters do, it
comes to an outcome whose record meets its contract. It returns that outcome, and the log holds the
record, unless there is half a surrogate pair in the record: that has no bytes and is not written.
-/

namespace ReleaseGate.Execution

open Audit (Entry Holds)

theorem nonBlank_wellFormed {v : Value} (h : v.NonBlank) : v.WellFormed := by
  obtain ⟨s, rfl, -⟩ := h
  trivial

theorem oneOf_wellFormed {allowed : List Text} {v : Value} (h : v.OneOf allowed) :
    v.WellFormed := by
  obtain ⟨s, -, rfl⟩ := h
  trivial

theorem inUnit_wellFormed {v : Value} (h : v.InUnit) : v.WellFormed := by
  have number := h.1
  cases v with
  | list vs => cases number
  | object ms => cases number
  | null | bool _ | int _ | float _ | str _ => trivial

theorem flag_wellFormed {v : Value} (h : ∃ b, v = .bool b) : v.WellFormed := by
  obtain ⟨b, rfl⟩ := h
  trivial

theorem transition_wellFormed {t : Transition} (h : t.Valid) : t.toValue.WellFormed := by
  refine Value.wellFormed_object.2 ⟨by simp, ?_⟩
  simp only [List.forall_mem_cons]
  exact ⟨trivial, trivial, nonBlank_wellFormed h.1, nonBlank_wellFormed h.2, List.forall_mem_nil _⟩

theorem result_wellFormed (r : AdapterResult) : r.toValue.WellFormed := by
  obtain ⟨adapter, status, timestamp, message⟩ := r
  refine Value.wellFormed_object.2 ⟨?_, ?_⟩
  · cases message <;> simp
  · cases message <;> simp [Value.WellFormed]

theorem members_wellFormed {p : Plan} (h : p.Valid) : ∀ m ∈ p.members, m.2.WellFormed := by
  have history : (Value.list (p.history.map Transition.toValue)).WellFormed :=
    Value.wellFormed_list.2
      (List.forall_mem_map.2 fun t ht => transition_wellFormed (h.history t ht))
  simp only [Plan.members, List.forall_mem_cons]
  exact ⟨nonBlank_wellFormed h.requestId, nonBlank_wellFormed h.runId, oneOf_wellFormed h.proposed,
    oneOf_wellFormed h.final, inUnit_wellFormed h.confidence, flag_wellFormed h.learning,
    flag_wellFormed h.approved, trivial, history, List.forall_mem_nil _⟩

theorem auditRecord_wellFormed {p : Plan} (h : p.Valid) (verdictHash : String) (timestamp : Text)
    (results : List AdapterResult) {dryRun : Value} (dry : ∃ b, dryRun = .bool b) :
    (auditRecord p verdictHash results dryRun timestamp).WellFormed := by
  have all : (Value.list (results.map AdapterResult.toValue)).WellFormed :=
    Value.wellFormed_list.2 (List.forall_mem_map.2 fun r _ => result_wellFormed r)
  refine Value.wellFormed_object.2 ⟨?_, List.forall_mem_append.2 ⟨?_, members_wellFormed h⟩⟩
  · simp [Value.names, Plan.members]
  · simp only [List.forall_mem_cons]
    exact ⟨trivial, trivial, trivial, flag_wellFormed dry, all, List.forall_mem_nil _⟩

/-- The record of an outcome brings no hashes, so it is read with all its members. -/
theorem auditRecord_own (p : Plan) (verdictHash : String) (timestamp : Text)
    (results : List AdapterResult) (dryRun : Value) :
    Audit.own (auditRecord p verdictHash results dryRun timestamp).members =
      (auditRecord p verdictHash results dryRun timestamp).members := by
  rfl

/-- Adapters that answer properly leave valid results and a proper clock. -/
theorem runAdapters_valid (action : Value) (request : Request) (position : Nat)
    {adapters : List Adapter} (proper : ∀ a ∈ adapters, a.Proper) {w : World}
    (clock : w.clock.Proper) :
    (∀ r ∈ (runAdapters action request position adapters w).1, r.Valid) ∧
      (runAdapters action request position adapters w).2.clock.Proper := by
  induction adapters generalizing position w with
  | nil => exact ⟨List.forall_mem_nil _, clock⟩
  | cons a rest ih =>
      have parts := List.forall_mem_cons.1 proper
      have own := Adapter.records_run parts.1 action request w.clock clock
      rw [runAdapters_cons]
      dsimp only
      split
      · exact ⟨List.forall_mem_singleton.2 own.1, own.2⟩
      · have later := ih (position + 1) parts.2 (w := { w with
          clock := (a.run action request w.clock).2
          invoked := w.invoked ++ noted a ⟨position, action, request.requestId⟩ }) own.2
        exact ⟨List.forall_mem_cons.2 ⟨own.1, later.1⟩, later.2⟩

/-- A plan that was executed ends in one of the two final statuses, for a reason. -/
theorem conclusion_ends (results : List AdapterResult) :
    PlanStatus.mayBecome .executed (conclusion results).1 = true ∧
      Text.isBlankText (conclusion results).2 = false := by
  unfold conclusion
  split
  · refine ⟨rfl, ?_⟩
    simp only [Text.isBlankText, Text.toList_append, List.append_assoc, List.all_append]
    exact Bool.and_eq_false_iff.2 (Or.inl rfl)
  · exact ⟨rfl, by decide⟩

theorem conclusion_final (results : List AdapterResult) :
    (conclusion results).1 = .verified ∨ (conclusion results).1 = .failed := by
  unfold conclusion
  split
  · exact Or.inr rfl
  · exact Or.inl rfl

/-- A world whose clock reads no blank, with a file that holds some entries in a chain. -/
structure Ready (w : World) (path : FilePath) (es : List Entry) : Prop where
  holds : Holds w.files path es
  clock : w.clock.Proper

/-- Options by which an execution writes to one log: it is open, or its path is given. -/
def Options.LogsTo (options : Options) (settings : Settings) (path : FilePath) : Prop :=
  options.log = some path ∨
    options.log = none ∧ ∃ s, logTarget settings options = .str s ∧ FilePath.ofText s = path

structure Outcome.Ended (o : Outcome) : Prop where
  valid : o.plan.Valid
  final : o.plan.status = .verified ∨ o.plan.status = .failed
  walked : o.plan.Walked
  last : ∃ t, o.plan.history.getLast? = some t ∧ t.new = o.plan.status

/-- An entry for an outcome: its record is that of the outcome and meets its contract, and it has
the hash that the outcome names. -/
structure Outcome.Recorded (o : Outcome) (verdictHash : String) (dryRun : Value) (e : Entry) :
    Prop where
  record : ∃ timestamp, .object e.record =
    auditRecord o.plan verdictHash o.results dryRun timestamp
  valid : Contract.auditIssues (.object e.record) = .ok []
  entryHash : e.entryHash = .str o.entryHash

/-- How a step ends that is to put one record behind the entries of a log: it returns the outcome
that was recorded, or it fails for want of bytes, which takes texts that are not as they should be.
Either way it leaves a given store. -/
inductive Logs (x : Run Outcome) (verdictHash : String) (dryRun : Value) (path : FilePath)
    (es : List Entry) (w : World) (store : Option Store) (texts : Prop) : Prop where
  | recorded {o : Outcome} {w' : World} {e : Entry} (ran : x.run w = (.ok o, w'))
      (ready : Ready w' path (es ++ [e])) (left : w'.store = store) (ended : o.Ended)
      (recorded : o.Recorded verdictHash dryRun e)
  | unencodable {w' : World} (ran : x.run w = (.error (.misfit .notEncodable), w'))
      (ready : Ready w' path es) (left : w'.store = store) (reason : ¬ texts)

section

variable {w : World} {path : FilePath} {es : List Entry} {hash : String}

theorem Ready.ticked (ready : Ready w path es) : Ready w.ticked path es :=
  ⟨ready.holds, ready.clock.tick⟩

/-- The adapters leave the log as it was, and the clock proper. -/
theorem runAdapters_ready (action : Value) (request : Request) (position : Nat)
    {adapters : List Adapter} (proper : ∀ a ∈ adapters, a.Proper) (ready : Ready w path es) :
    let turns := runAdapters action request position adapters w
    (∀ r ∈ turns.1, r.Valid) ∧ Ready turns.2 path es ∧ turns.2.store = w.store ∧
      turns.2.files = w.files := by
  obtain ⟨settled, clock⟩ := runAdapters_valid action request position proper ready.clock
  obtain ⟨-, -, -, store, files, -⟩ := runAdapters_run action request position adapters w
  exact ⟨settled, ⟨by rw [files]; exact ready.holds, clock⟩, store, files⟩

/-- Finding the log of an execution leaves its chain as it was. -/
theorem logPath_ready {settings : Settings} {options : Options}
    (logs : options.LogsTo settings path) (ready : Ready w path es) :
    ∃ w', (logPath settings options).run w = (.ok path, w') ∧ Ready w' path es ∧
      w'.store = w.store ∧ w'.clock = w.clock := by
  obtain given | ⟨none, s, target, rfl⟩ := logs
  · exact ⟨w, logPath_open given settings w, ready, rfl, rfl⟩
  · obtain ⟨files, opened, holds⟩ := Audit.openLog_holds ready.holds
    refine ⟨{ w with files }, ?_, ⟨holds, ready.clock⟩, rfl, rfl⟩
    rw [logPath_opened none target, opened]

/-- What a step runs before another one that logs does not matter. -/
theorem Logs.of_run {x y : Run Outcome} {dryRun : Value} {v : World} {store : Option Store}
    {texts : Prop} (h : Logs y hash dryRun path es v store texts) (run : x.run w = y.run v) :
    Logs x hash dryRun path es w store texts := by
  cases h with
  | recorded ran ready left ended own => exact .recorded (run.trans ran) ready left ended own
  | unencodable ran ready left reason => exact .unencodable (run.trans ran) ready left reason

theorem Logs.mono {x : Run Outcome} {dryRun : Value} {store : Option Store} {texts given : Prop}
    (h : Logs x hash dryRun path es w store texts) (enough : given → texts) :
    Logs x hash dryRun path es w store given := by
  cases h with
  | recorded ran ready left ended own => exact .recorded ran ready left ended own
  | unencodable ran ready left reason => exact .unencodable ran ready left (mt enough reason)

/-- The record of an outcome brings no previous hash that the entry would replace. -/
theorem auditRecord_unbound (p : Plan) (verdictHash : String) (timestamp : Text)
    (results : List AdapterResult) (dryRun : Value) :
    .object (Audit.unbound (auditRecord p verdictHash results dryRun timestamp).members) =
      auditRecord p verdictHash results dryRun timestamp := by
  rfl

/-- The record of a finished plan, made at the time that the clock gives. -/
theorem finish_record_clean {verdict : Value} (hashed : Verdict.contentHash verdict = .ok hash)
    {plan : Plan} (valid : plan.Valid) (final : plan.status = .verified ∨ plan.status = .failed)
    {results : List AdapterResult} (settled : ∀ r ∈ results, r.Valid) {dryRun : Value}
    (dry : ∃ b, dryRun = .bool b) (clock : w.clock.Proper) :
    Contract.auditIssues
      (auditRecord plan hash results dryRun (w.clock.reading w.clock.asked)) = .ok [] := by
  obtain ⟨s, -, rfl⟩ := Verdict.contentHash_eq_ok.1 hashed
  have terminal : plan.status.isTerminal = true := by
    obtain h | h := final <;> rw [h] <;> rfl
  exact Contract.auditRecord_clean s valid terminal settled dry (clock w.clock.asked)

section

variable {verdict : Value} (hashed : Verdict.contentHash verdict = .ok hash)
  (ready : Ready w path es) {dryRun : Value} {plan : Plan} {results : List AdapterResult}
  (valid : plan.Valid) (final : plan.status = .verified ∨ plan.status = .failed)
  (settled : ∀ r ∈ results, r.Valid) (dry : ∃ b, dryRun = .bool b)
include hashed ready valid final settled dry

/-- A record without bytes is not written, and the log stays as it was. -/
theorem finish_unencodable (half : (auditRecord plan hash results dryRun
      (w.clock.reading w.clock.asked)).isEncodable = false) :
    (finish path hash dryRun plan results).run w = (.error (.misfit .notEncodable), w.ticked) := by
  have clean := finish_record_clean hashed valid final settled dry ready.clock
  have wellFormed := auditRecord_wellFormed valid hash (w.clock.reading w.clock.asked) results dry
  rw [← auditRecord_unbound plan hash] at half
  rw [finish_run, Audit.append_holds_error ready.holds clean
    (Value.wellFormed_object.1 wellFormed).1 half]

/-- Closing an execution writes its record behind the chain, unless the record has no bytes. -/
theorem finish_logs (walked : plan.Walked) (moves : plan.history ≠ []) :
    Logs (finish path hash dryRun plan results) hash dryRun path es w w.store
      ((auditRecord plan hash results dryRun (w.clock.reading w.clock.asked)).isEncodable =
        true) := by
  have clean := finish_record_clean hashed valid final settled dry ready.clock
  have wellFormed := auditRecord_wellFormed valid hash (w.clock.reading w.clock.asked) results dry
  cases bytes : (auditRecord plan hash results dryRun
      (w.clock.reading w.clock.asked)).isEncodable with
  | false =>
      have ran := finish_unencodable hashed ready valid final settled dry bytes
      exact .unencodable ran ready.ticked rfl (by simp)
  | true =>
      rw [← auditRecord_unbound plan hash] at bytes
      obtain ⟨e, files, appended, own, holds⟩ :=
        Audit.append_holds ready.holds clean wellFormed bytes
      have text : ∃ s, e.entryHash = .str s :=
        (holds.goesOn.hashed e (List.mem_append_right es (List.mem_singleton_self e))).text
      have ran : (finish path hash dryRun plan results).run w =
          (.ok ⟨plan, results, e.entryHash.display⟩, { w.ticked with files }) := by
        rw [finish_run, appended]
      refine .recorded ran ⟨holds, ready.clock.tick⟩ rfl ⟨valid, final, walked, ?_⟩
        ⟨⟨w.clock.reading w.clock.asked, ?_⟩, ?_, ?_⟩
      · have last := List.getLast?_eq_some_getLast moves
        exact ⟨_, last, valid.last _ last⟩
      · rw [own]
        rfl
      · rw [own]
        exact clean
      · obtain ⟨t, text⟩ := text
        rw [text]
        rfl

end

theorem moved_ok {plan : Plan} {status : PlanStatus} (may : plan.status.mayBecome status = true)
    (reason : Text) (w : World) : (moved plan status reason).run w =
      (.ok (plan.step status (w.clock.reading w.clock.asked) reason), w.ticked) := by
  rw [moved_run, Plan.transitionTo_eq may]

/-- What is left to do when the adapters of a plan have had their turns: the plan is moved once more
and its record is written. -/
theorem carryOut_run {log : FilePath} {options : Options} {verdict : Value} {plan : Plan}
    (may : plan.status.mayBecome .executed = true) (adapters : List Adapter) (w : World) :
    let started := plan.step .executed (w.clock.reading w.clock.asked) "executing adapters"
    let ran := runAdapters plan.finalAction ⟨plan.requestId, plan.runId, verdict,
      started⟩ 0 adapters
      w.ticked
    let final := started.step (conclusion ran.1).1 (ran.2.clock.reading ran.2.clock.asked)
      (conclusion ran.1).2
    (carryOut log hash options verdict plan adapters).run w =
      (finish log hash options.dryRun final ran.1).run ran.2.ticked := by
  dsimp only
  rw [carryOut, run_bind_ok (moved_ok may _ w), run_bind_ok (run_monadLift _),
    run_bind_ok (moved_ok (conclusion_ends _).1 _ _)]

theorem step_moves (plan : Plan) (status : PlanStatus) (timestamp reason : Text) :
    (plan.step status timestamp reason).history ≠ [] := by
  simp [Plan.step]

section

variable {verdict : Value} (hashed : Verdict.contentHash verdict = .ok hash)
  (ready : Ready w path es) {plan : Plan} {options : Options} (valid : plan.Valid)
  (walked : plan.Walked) (dry : ∃ b, options.dryRun = .bool b)
include hashed ready valid walked dry

theorem withhold_logs (may : plan.status.mayBecome .verified = true) :
    Logs (withhold path hash options plan) hash options.dryRun path es w w.store
      (plan.Encodable ∧ w.clock.Encodable) := by
  let reason := if options.dryRun.truthy then "dry-run" else "no auto-exec"
  have full : Text.isBlankText reason = false := by
    dsimp only [reason]
    split <;> decide
  have none : ∀ r ∈ ([] : List AdapterResult), r.Valid := List.forall_mem_nil _
  have logs := finish_logs hashed ready.ticked
    (Plan.step_valid valid (ready.clock w.clock.asked) full) (Or.inl rfl) none dry
    (Plan.step_walked walked may) (step_moves _ _ _ _)
  refine (logs.of_run ?_).mono ?_
  · rw [withhold, run_bind_ok (moved_ok may _ w)]
  · rintro ⟨texts, clock⟩
    exact auditRecord_encodable (Plan.step_encodable texts (clock w.clock.asked) rfl) hash
      (clock.tick w.ticked.clock.asked) (List.forall_mem_nil _) dry

/-- A repeated request is closed with one record, unless a text of the plan has no bytes. -/
theorem skip_logs (may : plan.status.mayBecome .verified = true) :
    Logs (skip path hash options plan) hash options.dryRun path es w w.store
      (plan.Encodable ∧ w.clock.Encodable) := by
  have named : Text.isBlankText "idempotency" = false := by decide
  have full : Text.isBlankText "already executed (idempotent skip)" = false := by decide
  have result : (skipped plan.requestId (w.clock.reading w.clock.asked)).Valid :=
    ⟨named, ready.clock w.clock.asked⟩
  have logs := finish_logs hashed ready.ticked.ticked
    (Plan.step_valid valid (ready.ticked.clock w.ticked.clock.asked) full) (Or.inl rfl)
    (List.forall_mem_singleton.2 result) dry (Plan.step_walked walked may) (step_moves _ _ _ _)
  refine (logs.of_run ?_).mono ?_
  · rw [skip, run_bind_ok (time_run w), run_bind_ok (moved_ok may _ w.ticked)]
  · rintro ⟨texts, clock⟩
    have own := skipped_isEncodable valid.requestId texts.requestId (clock w.clock.asked)
    exact auditRecord_encodable (Plan.step_encodable texts (clock w.ticked.clock.asked) rfl) hash
      (clock w.ticked.ticked.clock.asked) (List.forall_mem_singleton.2 own) dry

/-- Carrying out a plan ends in one record, whatever is answered, unless a text has no bytes. -/
theorem carryOut_logs (may : plan.status.mayBecome .executed = true) {adapters : List Adapter}
    (proper : ∀ a ∈ adapters, a.Proper) :
    Logs (carryOut path hash options verdict plan adapters) hash options.dryRun path es w w.store
      (plan.Encodable ∧ w.clock.Encodable ∧ ∀ a ∈ adapters, a.Encodable) := by
  have full : Text.isBlankText "executing adapters" = false := by decide
  let started := plan.step .executed (w.clock.reading w.clock.asked) "executing adapters"
  let request : Request := ⟨plan.requestId, plan.runId, verdict, started⟩
  rcases ran : runAdapters plan.finalAction request 0 adapters w.ticked with ⟨results, v⟩
  obtain ⟨settled, after, store, -⟩ :=
    runAdapters_ready plan.finalAction request 0 proper ready.ticked
  rw [ran] at settled after store
  have ends := conclusion_ends results
  have begun : started.Valid := Plan.step_valid valid (ready.clock w.clock.asked) full
  have logs := finish_logs hashed after.ticked
    (Plan.step_valid begun (after.clock v.clock.asked) ends.2)
    (conclusion_final results) settled dry
    (Plan.step_walked (Plan.step_walked walked may) ends.1) (step_moves _ _ _ _)
  rw [show v.ticked.store = w.store from store] at logs
  refine (logs.of_run ((carryOut_run may adapters w).trans ?_)).mono ?_
  · rw [ran]
  · rintro ⟨texts, clock, encodable⟩
    have written := runAdapters_encodable plan.finalAction request 0 encodable (w := w.ticked) clock
    rw [ran] at written
    have begun : started.Encodable := Plan.step_encodable texts (clock w.clock.asked) rfl
    exact auditRecord_encodable (Plan.step_encodable begun (written.2 v.clock.asked)
      (conclusion_isString written.1)) hash (written.2 v.ticked.clock.asked) written.1 dry

omit walked in
/-- Where an adapter comes up with half a surrogate pair, the execution ends in an error once the
adapters have had their turns, and leaves no record of them. -/
theorem carryOut_unencodable (may : plan.status.mayBecome .executed = true)
    {adapters : List Adapter} (proper : ∀ a ∈ adapters, a.Proper)
    (half : ∃ r ∈ (runAdapters plan.finalAction ⟨plan.requestId, plan.runId, verdict,
        plan.step .executed (w.clock.reading w.clock.asked) "executing adapters"⟩ 0 adapters
        w.ticked).1, r.toValue.isEncodable = false) :
    ∃ w', (carryOut path hash options verdict plan adapters).run w =
      (.error (.misfit .notEncodable), w') ∧ w'.files = w.files ∧ w'.store = w.store := by
  have full : Text.isBlankText "executing adapters" = false := by decide
  let started := plan.step .executed (w.clock.reading w.clock.asked) "executing adapters"
  let request : Request := ⟨plan.requestId, plan.runId, verdict, started⟩
  rcases ran : runAdapters plan.finalAction request 0 adapters w.ticked with ⟨results, v⟩
  obtain ⟨settled, after, store, files⟩ :=
    runAdapters_ready plan.finalAction request 0 proper ready.ticked
  rw [ran] at settled after store files half
  have begun : started.Valid := Plan.step_valid valid (ready.clock w.clock.asked) full
  have unwritten := finish_unencodable hashed after.ticked
    (Plan.step_valid begun (after.clock v.clock.asked) (conclusion_ends results).2)
    (conclusion_final results) settled dry (auditRecord_unencodable _ hash _ half options.dryRun)
  refine ⟨v.ticked.ticked, ?_, files, store⟩
  rw [carryOut_run may, ran]
  exact unwritten

end

end

end ReleaseGate.Execution
