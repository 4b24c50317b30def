import ReleaseGate.Proofs.Contract.Audit
import ReleaseGate.Proofs.Json.Encodable
import ReleaseGate.Proofs.Policy.Loading

/-!
Documents that meet their contracts, read and written again. What the readers make of such a
document is written as the document was, up to the order of members; nothing that the contract
admits is lost or refused by a reader.
-/

namespace ReleaseGate

open Json (alike_refl alike_of_partners)

theorem PlanStatus.ofValue_name (s : PlanStatus) : ofValue (.str s.name) = .ok s := by
  cases s <;> rfl

theorem AdapterStatus.ofValue_name (s : AdapterStatus) : ofValue (.str s.name) = .ok s := by
  cases s <;> rfl

theorem Transition.ofValue_toValue (t : Transition) : Transition.ofValue t.toValue = .ok t := by
  show (do
    let old ← PlanStatus.ofValue (.str t.old.name)
    let new ← PlanStatus.ofValue (.str t.new.name)
    return (⟨old, new, t.timestamp, t.reason⟩ : Transition)) = _
  rw [PlanStatus.ofValue_name, PlanStatus.ofValue_name]
  rfl

/-- A plan is read back from the document it is written as. -/
theorem Plan.ofValue_toValue (p : Plan) : Plan.ofValue p.toValue = .ok p := by
  show (do
    let status ← PlanStatus.ofValue (.str p.status.name)
    let history ← (p.history.map Transition.toValue).mapM Transition.ofValue
    return ({ p with status, history } : Plan)) = _
  rw [PlanStatus.ofValue_name, mapM_restores Transition.ofValue_toValue]
  rfl

namespace Contract

open Check

variable {path : Path} {d : Value}

theorem transition_restored (clean : transition path d = []) (hd : d.WellFormed) :
    Yields (Transition.ofValue d) fun t => t.toValue.Alike d := by
  rw [transition, object_clean] at clean
  obtain ⟨ns, rfl, clean⟩ := clean
  simp only [both_cons_clean, onlyMembers_clean, required_text, oneOf_clean] at clean
  obtain ⟨known, ⟨_, old, isOld⟩, ⟨_, new, isNew⟩, ⟨timestamp, time, -⟩, ⟨reason, why, -⟩,
    -⟩ := clean
  obtain ⟨old', -, rfl⟩ := List.mem_map.1 isOld
  obtain ⟨new', -, rfl⟩ := List.mem_map.1 isNew
  have read : Transition.ofValue (.object ns) = .ok ⟨old', new', .str timestamp, .str reason⟩ := by
    simp only [Transition.ofValue, Verdict.need_of_member old, Verdict.need_of_member new,
      Verdict.need_of_member time, Verdict.need_of_member why, PlanStatus.ofValue_name, bind,
      Except.bind, pure, Except.pure]
  have distinct : (["from", "to", "timestamp", "reason"] : List Text).Nodup := by decide
  refine ⟨_, read, alike_of_partners distinct (Value.wellFormed_object.1 hd).1 known ?_⟩
  simp only [List.forall_mem_cons]
  exact ⟨partner_of_member hd old, partner_of_member hd new, partner_of_member hd time,
    partner_of_member hd why, List.forall_mem_nil _⟩

theorem transitions_restored {ds : List Value} (clean : ∀ d ∈ ds, ∃ place, transition place d = [])
    (hd : ∀ d ∈ ds, d.WellFormed) :
    Yields (ds.mapM Transition.ofValue) fun ts =>
      List.Forall₂ Value.Alike (ts.map Transition.toValue) ds := by
  induction ds with
  | nil => exact .ok .nil
  | cons d ds ih =>
      obtain ⟨⟨place, first⟩, rest⟩ := List.forall_mem_cons.1 clean
      obtain ⟨own, others⟩ := List.forall_mem_cons.1 hd
      rw [List.mapM_cons]
      exact (transition_restored first own).bind fun t ht =>
        (ih rest others).bind fun ts hts => .ok (.cons ht hts)

/-- A document that passes the plan's contract is read as a plan that writes the same document. -/
theorem plan_restored (clean : planIssues d = []) (hd : d.WellFormed) :
    Yields (Plan.ofValue d) fun p => p.toValue.Alike d := by
  unfold planIssues at clean
  split at clean
  case isFalse => cases clean
  rename_i fit
  obtain ⟨ns, rfl⟩ := fits_object.1 fit
  simp only [both_cons_clean, onlyMembers_clean, planFields, required_text, required_list,
    oneOf_clean, schema_clean] at clean
  obtain ⟨known, ⟨_, version, rfl⟩, ⟨⟨request, requestId, -⟩, ⟨run, runId, -⟩,
    ⟨proposal, proposed, -⟩, ⟨action, final, -⟩, number, flag, otherFlag,
    ⟨_, status, isStatus⟩, ⟨docs, history, moves⟩, -⟩, -⟩ := clean
  obtain ⟨share, confidence, -⟩ := required_clean.1 number
  obtain ⟨mode, learning, -⟩ := required_clean.1 flag
  obtain ⟨approval, approved, -⟩ := required_clean.1 otherFlag
  obtain ⟨s, -, rfl⟩ := List.mem_map.1 isStatus
  obtain ⟨ts, read, alike⟩ := transitions_restored (each_items moves)
    (Value.wellFormed_list.1 (Value.member_wellFormed hd history))
  have find : (Value.object ns).find "status_transitions" = .ok (some (.list docs)) :=
    congrArg Except.ok history
  have built : Plan.ofValue (.object ns) =
      .ok ⟨.str request, .str run, .str proposal, .str action, share, mode, approval, s, ts⟩ := by
    simp only [Plan.ofValue, Verdict.need_of_member requestId, Verdict.need_of_member runId,
      Verdict.need_of_member proposed, Verdict.need_of_member final,
      Verdict.need_of_member confidence, Verdict.need_of_member learning,
      Verdict.need_of_member approved, Verdict.need_of_member status, PlanStatus.ofValue_name, find,
      Option.getD_some, Value.walk, read, bind, Except.bind, pure, Except.pure]
  have distinct : planMembers.Nodup := by decide
  refine ⟨_, built, alike_of_partners distinct (Value.wellFormed_object.1 hd).1 known ?_⟩
  simp only [List.forall_mem_cons, Plan.members]
  exact ⟨partner_of_member hd version, partner_of_member hd requestId, partner_of_member hd runId,
    partner_of_member hd proposed, partner_of_member hd final, partner_of_member hd confidence,
    partner_of_member hd learning, partner_of_member hd approved, partner_of_member hd status,
    ⟨_, history, Value.alike_list.2 alike⟩, List.forall_mem_nil _⟩

end Contract

/-- A recorded result as its document has it. -/
structure AdapterResult.ReadFrom (a : AdapterResult) (d : Value) : Prop where
  adapter : d.member? "adapter" = some (.str a.adapter)
  status : d.member? "status" = some (.str a.status.name)
  timestamp : d.member? "timestamp" = some (.str a.timestamp)
  message : d.member? "message" = a.message.map Value.str
  known : ∀ k ∈ Value.names d.members, k ∈ Contract.adapterResultMembers

open Contract Check in
theorem Contract.adapterResult_read {path : Path} {d : Value} (clean : adapterResult path d = []) :
    ∃ a : AdapterResult, a.ReadFrom d := by
  unfold adapterResult at clean
  split at clean
  case isFalse => cases clean
  rename_i fit
  obtain ⟨ns, rfl⟩ := fits_object.1 fit
  simp only [both_cons_clean, onlyMembers_clean, required_text, optional_clean,
    oneOf_clean] at clean
  obtain ⟨known, ⟨adapter, named, -⟩, ⟨_, status, isStatus⟩, message, ⟨time, timed, -⟩, -⟩ := clean
  obtain ⟨s, -, rfl⟩ := List.mem_map.1 isStatus
  have text : ∃ said : Option Text, (Value.object ns).member? "message" = said.map Value.str := by
    cases said : (Value.object ns).member? "message" with
    | none => exact ⟨none, rfl⟩
    | some v =>
        obtain ⟨m, rfl⟩ := fits_text.1 (message v said).1
        exact ⟨some m, rfl⟩
  obtain ⟨said, message⟩ := text
  exact ⟨⟨adapter, s, time, said⟩, named, status, timed, message, known⟩

namespace AdapterResult

def given (a : AdapterResult) : GivenResult :=
  ⟨.str a.adapter, .known a.status, .str a.timestamp, (a.message.map Value.str).getD .null⟩

theorem toValue_given (a : AdapterResult) :
    a.toValue = .object (Reply.givenMembers a.given a.status) := by
  obtain ⟨adapter, status, timestamp, message⟩ := a
  cases message <;> rfl

namespace ReadFrom

variable {a : AdapterResult} {d : Value} (reads : a.ReadFrom d)
include reads

theorem ofValue : GivenResult.ofValue d = .ok a.given := by
  simp only [GivenResult.ofValue, Verdict.need_of_member reads.adapter,
    Verdict.need_of_member reads.status, Verdict.need_of_member reads.timestamp,
    Value.find_of_member reads.adapter, reads.message, AdapterStatus.ofValue_name, bind,
      Except.bind,
    pure, Except.pure]
  rfl

/-- A result that passes its contract is recorded as it was given. -/
theorem recorded (clean : Contract.adapterResult [] d = []) : Reply.recorded? d = .ok a := by
  rw [Reply.recorded?, clean, reads.adapter, reads.status, reads.timestamp, reads.message]
  obtain ⟨adapter, status, timestamp, message⟩ := a
  cases status <;> cases message <;> rfl

theorem toValue_alike (hd : d.WellFormed) : a.toValue.Alike d := by
  obtain ⟨ns, rfl⟩ : ∃ ns, d = .object ns := by
    cases d with
    | object ns => exact ⟨ns, rfl⟩
    | _ => exact nomatch reads.adapter
  have adapter := partner_of_member hd reads.adapter
  have status := partner_of_member hd reads.status
  have timestamp := partner_of_member hd reads.timestamp
  have own := (Value.wellFormed_object.1 hd).1
  have known := reads.known
  have message := reads.message
  obtain ⟨name, s, time, said⟩ := a
  cases said with
  | none =>
      have distinct : (["adapter", "status", "timestamp"] : List Text).Nodup := by decide
      have others : ∀ k ∈ Contract.adapterResultMembers, k ≠ ↑"message" →
          k ∈ (["adapter", "status", "timestamp"] : List Text) := by decide
      have missing : ↑"message" ∉ Value.names ns := Value.lookup_eq_none_iff.1 message
      refine alike_of_partners distinct own (fun k hk => ?_) ?_
      · exact others k (known k hk) fun same => missing (same ▸ hk)
      · simp only [Option.map_none, Option.toList_none, List.append_nil, List.forall_mem_cons]
        exact ⟨adapter, status, timestamp, List.forall_mem_nil _⟩
  | some m =>
      have distinct : (["adapter", "status", "timestamp", "message"] : List Text).Nodup := by decide
      have same : ∀ k ∈ Contract.adapterResultMembers,
          k ∈ (["adapter", "status", "timestamp", "message"] : List Text) := by decide
      refine alike_of_partners distinct own (fun k hk => same k (known k hk)) ?_
      simp only [Option.map_some, Option.toList_some, List.cons_append, List.nil_append,
        List.forall_mem_cons]
      exact ⟨adapter, status, timestamp, partner_of_member hd message, List.forall_mem_nil _⟩

end ReadFrom

end AdapterResult

namespace Contract

/-- Documents that meet their contracts survive being read and written. A policy document is read,
whatever the default for its learning mode, as a policy with distinct rule ids that is written as
the document with that default filled in and meets the contract again; where its identifiers are
known, a file with that document in JSON is loaded as the same policy. A plan document is read as a
plan and written as it was, and every plan is read back; a result document is read as a result,
which is the one recorded for it, and written as it was. -/
theorem documents_restored :
    (∀ (L : Bool) (d : Value), d.WellFormed → policyIssues d = [] →
      ∃ p : Policy, Policy.ofValue (.bool L) d = .ok p ∧
        p.toValue.Alike (Policy.withLearningMode (.bool L) d) ∧ (p.rules.map Rule.id).Nodup ∧
        policyIssues p.toValue = [] ∧
        ((Misfit.lift (Policy.rawConditions d) >>= Policy.checkIdentifiers) = .ok () →
          ∀ (files : Files) (path : FilePath) (text : String) (v : Value),
            Policy.Notation.ofSuffix? path.suffix = some .json → files.read path = .ok text →
            Json.ofText? text = some v → v.Alike d →
            Policy.load (.bool L) files path = .ok p)) ∧
    (∀ d : Value, d.WellFormed → planIssues d = [] →
      ∃ p, Plan.ofValue d = .ok p ∧ p.toValue.Alike d) ∧
    (∀ p : Plan, Plan.ofValue p.toValue = .ok p) ∧
    ∀ d : Value, d.WellFormed → adapterResult [] d = [] →
      ∃ a : AdapterResult, GivenResult.ofValue d = .ok a.given ∧ Reply.recorded? d = .ok a ∧
        a.toValue = .object (Reply.givenMembers a.given a.status) ∧ a.toValue.Alike d := by
  refine ⟨fun L d hd clean => ?_, fun d hd clean => plan_restored clean hd, Plan.ofValue_toValue,
    fun d hd clean => ?_⟩
  · obtain ⟨p, reads⟩ := policyIssues_clean (.bool L) clean
    obtain ⟨docs, found, each⟩ := reads.rules
    have ids := (rulesFrom_ids (rulesFrom_of_clean clean found) each).2
    exact ⟨p, reads.ofValue, Policy.toValue_alike clean hd reads, ids,
      Policy.toValue_clean clean hd reads, fun known _ _ _ _ json stored read alike =>
        Policy.load_alike reads clean hd known json stored read alike⟩
  · obtain ⟨a, reads⟩ := adapterResult_read clean
    exact ⟨a, reads.ofValue, reads.recorded clean, a.toValue_given, reads.toValue_alike hd⟩

def undefaulted : Value :=
  .object [("rules", .list [Policy.infraRule.toValue]), ("version", .str "v1")]

def approvedPlan : Value :=
  .object [("run_id", .str "run-1"), ("action_request_id", .str "AR-1"),
    ("schema_version", .str planSchema), ("proposed_action", .str "KILL_AND_ROLLBACK"),
    ("final_action", .str "KILL_AND_ROLLBACK"), ("confidence", .int 1),
    ("learning_mode", .bool false), ("approved_for_execution", .bool true),
    ("status", .str "APPROVED"),
    ("status_transitions", .list [.object [("to", .str "APPROVED"), ("from", .str "PROPOSED"),
      ("reason", .str "severe"), ("timestamp", .str "t")]])]

def explainedResult : Value :=
  .object [("message", .str "done"), ("adapter", .str "deploy"), ("status", .str "SUCCESS"),
    ("timestamp", .str "t")]

theorem documents_restored_infra :
    undefaulted.WellFormed ∧ policyIssues undefaulted = [] ∧
    (∃ p, Policy.ofValue (.bool true) undefaulted = .ok p ∧
      p.toValue.Alike (Policy.withLearningMode (.bool true) undefaulted) ∧
      ∃ text : String, Json.lineText undefaulted = text ∧
        Policy.load (.bool true) (Policy.policyFile text) ["p.json"] = .ok p) ∧
    approvedPlan.WellFormed ∧ planIssues approvedPlan = [] ∧
    (∃ p, Plan.ofValue approvedPlan = .ok p ∧ p.toValue.Alike approvedPlan) ∧
    explainedResult.WellFormed ∧ adapterResult [] explainedResult = [] ∧
    ∃ a : AdapterResult, GivenResult.ofValue explainedResult = .ok a.given ∧
      a.toValue.Alike explainedResult := by
  have policy : undefaulted.WellFormed := by
    simp [undefaulted, Policy.infraRule, Rule.toValue, Value.WellFormed, Value.ItemsWellFormed,
      Value.MembersWellFormed]
  have plan : approvedPlan.WellFormed := by
    simp [approvedPlan, Value.WellFormed, Value.ItemsWellFormed, Value.MembersWellFormed]
  have result : explainedResult.WellFormed := by
    simp [explainedResult, Value.WellFormed, Value.MembersWellFormed]
  have policyClean : policyIssues undefaulted = [] := by decide +kernel
  have planClean : planIssues approvedPlan = [] := by decide +kernel
  have resultClean : adapterResult [] explainedResult = [] := by decide +kernel
  have known : (Misfit.lift (Policy.rawConditions undefaulted) >>= Policy.checkIdentifiers) =
      .ok () := eq_ok_of_toOption (by decide +kernel)
  have json : Policy.Notation.ofSuffix? (FilePath.suffix ["p.json"]) = some .json := by
    decide +kernel
  have encodable : (Json.lineText undefaulted).isString = true := by
    rw [Json.lineText_isString]
    decide +kernel
  obtain ⟨text, line⟩ := Text.isString_iff.1 encodable
  have stored := Policy.policyFile_read text
  have read : Json.ofText? text = some (Json.sorted undefaulted) := by
    rw [← line, Json.ofText?, Json.lineText, Text.toList_ofList]
    exact Json.read?_write Json.spaced_plain (Json.sorted_wellFormed policy)
  obtain ⟨policies, plans, -, results⟩ := documents_restored
  obtain ⟨p, ofValue, alike, -, -, loads⟩ := policies true undefaulted policy policyClean
  obtain ⟨a, given, -, -, same⟩ := results explainedResult result resultClean
  exact ⟨policy, policyClean, ⟨p, ofValue, alike, text, line,
    loads known _ _ _ _ json stored read (Json.sorted_alike policy)⟩, plan, planClean,
      plans approvedPlan plan planClean, result,
    resultClean, a, given, same⟩

end Contract

end ReleaseGate
