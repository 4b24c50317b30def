import ReleaseGate.Adapter.Reply
import ReleaseGate.Plan.Basic
import ReleaseGate.Proofs.Contract.Check

/-!
The contract of plans on plans themselves: what a plan must hold for its document to be clean. The
same members stand in audit records, so the shared checks are read once for both.
-/

namespace ReleaseGate

def Value.NonBlank (v : Value) : Prop := ∃ s, v = .str s ∧ Text.isBlankText s = false

def Value.InUnit (v : Value) : Prop :=
  v.fits .number = true ∧ (Value.int 0).notAfter? v = some true ∧ v.notAfter? (.int 1) = some true

def Value.OneOf (allowed : List Text) (v : Value) : Prop := ∃ s ∈ allowed, v = .str s

def Transition.Valid (t : Transition) : Prop := t.timestamp.NonBlank ∧ t.reason.NonBlank

structure Plan.Valid (p : Plan) : Prop where
  requestId : p.requestId.NonBlank
  runId : p.runId.NonBlank
  proposed : p.proposedAction.OneOf Contract.factoryActions
  final : p.finalAction.OneOf Contract.factoryActions
  confidence : p.confidence.InUnit
  learning : ∃ b, p.learningMode = .bool b
  approved : ∃ b, p.approved = .bool b
  history : ∀ t ∈ p.history, t.Valid
  last : ∀ t ∈ p.history.getLast?, t.new = p.status

namespace Contract

open Check

theorem required_nonBlank {key : Text} {path : Path} {doc v : Value}
    (h : doc.member? key = some v) : required key .text notBlank path doc = [] ↔ v.NonBlank := by
  rw [required_clean_of h]
  constructor
  · rintro ⟨fit, clean⟩
    obtain ⟨s, rfl⟩ := fits_text.1 fit
    exact ⟨s, rfl, notBlank_clean.1 clean⟩
  · rintro ⟨s, rfl, full⟩
    exact ⟨rfl, notBlank_clean.2 full⟩

theorem required_oneOf {key : Text} {allowed : List Text} {path : Path} {doc v : Value}
    (h : doc.member? key = some v) :
    required key .text (oneOf allowed) path doc = [] ↔ v.OneOf allowed := by
  rw [required_clean_of h]
  constructor
  · rintro ⟨fit, clean⟩
    obtain ⟨s, rfl⟩ := fits_text.1 fit
    exact ⟨s, oneOf_clean.1 clean, rfl⟩
  · rintro ⟨s, member, rfl⟩
    exact ⟨rfl, oneOf_clean.2 member⟩

theorem required_flag {key : Text} {path : Path} {doc v : Value}
    (h : doc.member? key = some v) :
    required key .flag anything path doc = [] ↔ ∃ b, v = .bool b := by
  rw [required_clean_of h]
  constructor
  · rintro ⟨fit, -⟩
    exact fits_flag.1 fit
  · rintro ⟨b, rfl⟩
    exact ⟨rfl, rfl⟩

theorem required_inUnit {key : Text} {path : Path} {doc v : Value}
    (h : doc.member? key = some v) :
    required key .number (between 0 1) path doc = [] ↔ v.InUnit := by
  rw [required_clean_of h]
  exact and_congr_right fun _ => between_clean

theorem status_name_mem (s : PlanStatus) : s.name ∈ planStatuses := by
  cases s <;> decide

theorem status_name_injective {s t : PlanStatus} (h : s.name = t.name) : s = t := by
  cases s <;> cases t <;> first | rfl | exact absurd h (by decide)

theorem transition_clean {path : Path} {t : Transition} :
    transition path t.toValue = [] ↔ t.Valid := by
  have old : t.toValue.member? "from" = some (.str t.old.name) := rfl
  have new : t.toValue.member? "to" = some (.str t.new.name) := rfl
  have timestamp : t.toValue.member? "timestamp" = some t.timestamp := rfl
  have reason : t.toValue.member? "reason" = some t.reason := rfl
  have names : onlyMembers ["from", "to", "timestamp", "reason"] path t.toValue = [] :=
    onlyMembers_clean.2 (by simp)
  rw [transition, object_clean]
  constructor
  · rintro ⟨_, h, clean⟩
    rw [← h] at clean
    simp only [both_cons_clean, required_nonBlank timestamp, required_nonBlank reason] at clean
    exact ⟨clean.2.2.2.1, clean.2.2.2.2.1⟩
  · rintro ⟨ht, hr⟩
    refine ⟨_, rfl, ?_⟩
    rw [← Transition.toValue]
    simp only [both_cons_clean, required_nonBlank timestamp, required_nonBlank reason,
      required_oneOf old, required_oneOf new, names, both_nil_clean, and_true, true_and]
    exact ⟨⟨_, status_name_mem _, rfl⟩, ⟨_, status_name_mem _, rfl⟩, ht, hr⟩

def planNames : List Text := planMembers.tail

/-- Members in front of others hide none that they do not name. -/
theorem member_append {pre ms : List (Text × Value)} {k : Text} (h : k ∉ Value.names pre) :
    (Value.object (pre ++ ms)).member? k = (Value.object ms).member? k := by
  simp only [Value.member?]
  induction pre with
  | nil => rfl
  | cons m pre ih =>
      obtain ⟨head, tail⟩ := not_or.1 (fun hk => h (List.mem_cons.2 hk))
      rw [List.cons_append, Value.lookup_cons_if, if_neg head, ih tail]

/-- The history check accepts exactly a plan whose status is its last transition's target. -/
theorem statusIsLastTarget_clean {path : Path} {pre : List (Text × Value)} {p : Plan}
    (apart : ∀ k ∈ planNames, k ∉ Value.names pre) :
    statusIsLastTarget path (.object (pre ++ p.members)) = [] ↔
      ∀ t ∈ p.history.getLast?, t.new = p.status := by
  have status : (Value.object (pre ++ p.members)).member? "status" = some (.str p.status.name) :=
    member_append (apart _ (by decide))
  have history : (Value.object (pre ++ p.members)).member? "status_transitions" =
      some (.list (p.history.map Transition.toValue)) := member_append (apart _ (by decide))
  have target : lastTarget? (.object (pre ++ p.members)) =
      p.history.getLast?.map fun t => .str t.new.name := by
    simp only [lastTarget?, history, Option.getD_some, Value.items, List.getLast?_map]
    cases p.history.getLast? <;> rfl
  simp only [statusIsLastTarget, status, target]
  cases p.history.getLast? with
  | none => simp
  | some t =>
      simp only [Option.map_some, Option.mem_some_iff, Value.str.injEq, forall_eq']
      constructor
      · intro h
        by_cases same : t.new.name = p.status.name
        · exact status_name_injective same
        · rw [if_neg same] at h
          cases h
      · intro h
        rw [if_pos (by rw [h])]

/-- The field checks of a plan's document ask for exactly the plan's validity. -/
theorem planFields_clean (path : Path) {pre : List (Text × Value)} {p : Plan}
    (apart : ∀ k ∈ planNames, k ∉ Value.names pre) :
    planFields path (.object (pre ++ p.members)) = [] ↔ p.Valid := by
  have found {k : Text} {v : Value} (hk : k ∈ planNames)
      (h : (Value.object p.members).member? k = some v) :
      (Value.object (pre ++ p.members)).member? k = some v := (member_append (apart k hk)).trans h
  have requestId := found (k := "action_request_id") (v := p.requestId) (by decide) rfl
  have runId := found (k := "run_id") (v := p.runId) (by decide) rfl
  have proposed := found (k := "proposed_action") (v := p.proposedAction) (by decide) rfl
  have final := found (k := "final_action") (v := p.finalAction) (by decide) rfl
  have confidence := found (k := "confidence") (v := p.confidence) (by decide) rfl
  have learning := found (k := "learning_mode") (v := p.learningMode) (by decide) rfl
  have approved := found (k := "approved_for_execution") (v := p.approved) (by decide) rfl
  have status := found (k := "status") (v := .str p.status.name) (by decide) rfl
  have history := found (k := "status_transitions") (by decide) rfl
  have transitions : ∀ path, Value.fits .list (.list (p.history.map Transition.toValue)) = true ∧
      each transition path (.list (p.history.map Transition.toValue)) = [] ↔
        ∀ t ∈ p.history, t.Valid :=
    fun path => (and_iff_right rfl).trans (each_clean fun _ _ => transition_clean)
  rw [planFields]
  simp only [both_cons_clean, both_nil_clean, required_nonBlank requestId, required_nonBlank runId,
    required_oneOf proposed, required_oneOf final, required_inUnit confidence,
    required_flag learning, required_flag approved, required_oneOf status,
    statusIsLastTarget_clean apart, required_clean_of history, transitions, and_true]
  constructor
  · rintro ⟨request, run, action, last, share, learns, approves, -, moves, ends⟩
    exact ⟨request, run, action, last, share, learns, approves, moves, ends⟩
  · rintro ⟨request, run, action, last, share, learns, approves, moves, ends⟩
    exact ⟨request, run, action, last, share, learns, approves, ⟨_, status_name_mem _, rfl⟩, moves,
      ends⟩

/-- A plan's document is clean exactly when the plan is valid. -/
theorem planIssues_clean {p : Plan} : planIssues p.toValue = [] ↔ p.Valid := by
  have apart : ∀ k ∈ planNames, k ∉ Value.names [("schema_version", .str planSchema)] := by decide
  have fields : planFields [] p.toValue = [] ↔ p.Valid := planFields_clean [] apart
  have known : onlyMembers planMembers [] p.toValue = [] :=
    onlyMembers_clean.2 fun _ hk => hk
  have version : p.toValue.member? "schema_version" = some (.str planSchema) := rfl
  have fit : p.toValue.fits .object = true := rfl
  rw [planIssues, if_pos fit]
  simp only [both_cons_clean, both_nil_clean, known, fields, required_clean_of version,
    schema_clean, and_true, true_and]
  exact and_iff_right rfl

/-- A plan passes its contract exactly if it is valid. -/
theorem plan_check {p : Plan} : p.check = .ok () ↔ p.Valid := by
  rw [← planIssues_clean, Plan.check]
  cases planIssues p.toValue <;> simp

end Contract

end ReleaseGate
