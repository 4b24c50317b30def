import ReleaseGate.Execution.Outcome
import ReleaseGate.Proofs.Contract.Plan
import ReleaseGate.Proofs.Digest.Sha256

/-!
The contract of audit records on the records of finished plans: such a record is clean where the
plan is valid and final, the results are valid and the time is not blank.
-/

namespace ReleaseGate

structure AdapterResult.Valid (r : AdapterResult) : Prop where
  adapter : Text.isBlankText r.adapter = false
  timestamp : Text.isBlankText r.timestamp = false

namespace Contract

open Check

theorem adapterStatus_name_mem (s : AdapterStatus) : s.name ∈ adapterStatuses := by
  cases s <;> decide

theorem nonBlank_str {s : Text} : (Value.str s).NonBlank ↔ Text.isBlankText s = false := by
  simp [Value.NonBlank]

/-- The contract of a result asks for exactly what a valid result has. -/
theorem adapterResult_clean {path : Path} {r : AdapterResult} :
    adapterResult path r.toValue = [] ↔ r.Valid := by
  have adapter : r.toValue.member? "adapter" = some (.str r.adapter) := rfl
  have status : r.toValue.member? "status" = some (.str r.status.name) := rfl
  have timestamp : r.toValue.member? "timestamp" = some (.str r.timestamp) := rfl
  have message : optional "message" .text anything path r.toValue = [] := by
    refine optional_clean.2 fun v hv => ⟨?_, rfl⟩
    obtain ⟨name, state, time, said⟩ := r
    cases said with
    | none => cases hv
    | some m =>
        injection hv with hv
        subst hv
        rfl
  have known : onlyMembers adapterResultMembers path r.toValue = [] := by
    obtain ⟨name, state, time, said⟩ := r
    refine onlyMembers_clean.2 ?_
    cases said <;> simp [adapterResultMembers]
  have fit : r.toValue.fits .object = true := rfl
  rw [adapterResult, if_pos fit]
  simp only [both_cons_clean, both_nil_clean, known, message, required_nonBlank adapter,
    required_nonBlank timestamp, required_oneOf status, nonBlank_str, and_true, true_and]
  constructor
  · rintro ⟨named, -, timed⟩
    exact ⟨named, timed⟩
  · rintro ⟨named, timed⟩
    exact ⟨named, ⟨_, adapterStatus_name_mem _, rfl⟩, timed⟩

theorem hash_clean {path : Path} (s : String) : hash path (.str (Digest.sha256 s)) = [] := by
  obtain ⟨length, hex⟩ := Digest.sha256_hex s
  have every : (Text.toList (Digest.sha256 s)).all
      (fun c => (Text.toList "0123456789abcdef").contains c) = true := by
    refine List.all_eq_true.2 fun c hc => List.contains_iff_mem.2 ?_
    obtain ⟨digit, listed, rfl⟩ := List.mem_map.1 hc
    exact List.mem_map_of_mem (hex digit listed)
  have whole : Text.length (Digest.sha256 s) = 64 := (List.length_map ..).trans length
  exact if_pos ⟨whole, every⟩

theorem ofName?_name (s : PlanStatus) : PlanStatus.ofName? s.name = some s := by
  cases s <;> rfl

/-- The record of a plan that has ended passes the contract it is checked against. -/
theorem auditRecord_clean (verdict : String) {plan : Plan} {timestamp : Text}
    {results : List AdapterResult} {dryRun : Value} (valid : plan.Valid)
    (final : plan.status.isTerminal = true) (settled : ∀ r ∈ results, r.Valid)
    (dry : ∃ b, dryRun = .bool b)
    (time : Text.isBlankText timestamp = false) :
    auditIssues (Execution.auditRecord plan (Digest.sha256 verdict) results dryRun timestamp) =
      .ok [] := by
  have apart : ∀ k ∈ planNames, k ∉ Value.names [
      ("schema_version", .str auditSchema), ("timestamp", .str timestamp),
      ("verdict_hash", .str (Digest.sha256 verdict)), ("dry_run", dryRun),
      ("adapter_results", .list (results.map AdapterResult.toValue))] := by
    simp [planNames, planMembers]
  have fields := (planFields_clean [] apart).2 valid
  let doc := Execution.auditRecord plan (Digest.sha256 verdict) results dryRun timestamp
  have version : doc.member? "schema_version" = some (.str auditSchema) := rfl
  have timeMember : doc.member? "timestamp" = some (.str timestamp) := rfl
  have hashMember : doc.member? "verdict_hash" = some (.str (Digest.sha256 verdict)) := rfl
  have dryMember : doc.member? "dry_run" = some dryRun := rfl
  have all : doc.member? "adapter_results" = some (.list (results.map AdapterResult.toValue)) := rfl
  have status : doc.member? "status" = some (.str plan.status.name) := rfl
  have known : onlyMembers auditMembers [] doc = [] := by
    refine onlyMembers_clean.2 ?_
    simp [Value.names, Plan.members, auditMembers]
  have ended : finalStatus [] doc = [] := by
    simp only [finalStatus, status, ofName?_name, final, if_true]
  have eachResult : ∀ path,
      each adapterResult path (.list (results.map AdapterResult.toValue)) = [] :=
    fun _ => (each_clean fun _ _ => adapterResult_clean).2 settled
  have noHash (key : Text) (absent : doc.member? key = none) :
      optional key .text anything [] doc = [] := optional_clean.2 (by simp [absent])
  have fit : doc.fits .object = true := rfl
  show auditIssues doc = .ok []
  simp only [auditIssues, fit, status, Option.getD_some, Value.hashable, Bool.not_true,
    Bool.false_eq_true, if_false]
  refine congrArg Except.ok ?_
  simp only [both_cons_clean, both_nil_clean, known, required_clean_of version, schema_clean,
    required_nonBlank timeMember, nonBlank_str, required_clean_of hashMember, hash_clean,
    required_flag dryMember, required_clean_of all, eachResult, ended, noHash "prev_hash" rfl,
    noHash "entry_hash" rfl, and_true, true_and]
  exact ⟨rfl, time, rfl, fields, dry, rfl⟩

end Contract

end ReleaseGate
