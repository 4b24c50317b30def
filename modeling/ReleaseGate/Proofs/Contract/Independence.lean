import ReleaseGate.Proofs.Contract.Fields
import ReleaseGate.Proofs.Verdict.Built
import ReleaseGate.Signal

/-!
No issue hides another. Run metadata, verdict inputs and signals have the fields that their shapes
list, and what is found wrong with one of them does not go by the rest of the document.
-/

namespace ReleaseGate

open Json (sorted)

namespace Check

theorem anything_conforms : Conforms anything .scalar :=
  .scalar .anything (.of_here fun _ _ _ hi => nomatch hi)

theorem notBlank_conforms : Conforms notBlank .scalar := by
  refine .scalar .notBlank (.of_here fun root v i hi => ?_)
  unfold notBlank at hi
  split at hi
  · exact ⟨_, List.mem_singleton.1 hi⟩
  · cases hi

theorem oneOf_conforms (allowed : List Text) : Conforms (oneOf allowed) .scalar := by
  refine .scalar (.oneOf allowed) (.of_here fun root v i hi => ?_)
  unfold oneOf at hi
  split at hi
  · cases hi
  · exact ⟨_, List.mem_singleton.1 hi⟩

theorem atLeast_conforms (least : Nat) : Conforms (atLeast least) .scalar := by
  refine .scalar (.atLeast least) (.of_here fun root v i hi => ?_)
  unfold atLeast at hi
  split at hi
  · split at hi
    · exact ⟨_, List.mem_singleton.1 hi⟩
    · cases hi
  · cases hi

theorem isText_conforms : Conforms isText .scalar := by
  refine .scalar .isText (.of_here fun root v i hi => ?_)
  unfold isText at hi
  split at hi
  · cases hi
  · exact ⟨_, List.mem_singleton.1 hi⟩

/-- The check of an object whose members are all known. -/
theorem Conforms.closed {allowed : List Text} {cs : List (Check Value)}
    {ms : List (Text × Bool × Shape)} (known : ∀ m ∈ ms, m.1 ∈ allowed)
    (distinct : (ms.map Prod.fst).Nodup) (fills : List.Forall₂ Fills cs ms) :
    Conforms (both (onlyMembers allowed :: cs)) (.record ms) :=
  (Conforms.record distinct fills).only known

variable {c : Check Value} {needed : Bool} {key : Text} {kind : Kind}

theorem Conforms.fills (h : Conforms c .scalar) :
    Fills (member needed key kind c) (key, needed, .scalar) :=
  ⟨kind, c, rfl, h, trivial⟩

theorem Conforms.fills_record {ms : List (Text × Bool × Shape)} (h : Conforms c (.record ms)) :
    Fills (member needed key .object c) (key, needed, .record ms) :=
  ⟨.object, c, rfl, h, rfl⟩

theorem Conforms.fills_items {s : Shape} (h : Conforms c (.items s)) :
    Fills (member needed key .list c) (key, needed, .items s) :=
  ⟨.list, c, rfl, h, rfl⟩

end Check

namespace Contract

open Check

def runShape : Shape :=
  .record [("run_id", true, .scalar), ("repo", true, .scalar), ("head_sha", true, .scalar),
    ("timestamp_utc", true, .scalar), ("pr_number", true, .scalar)]

def changeSummaryShape : Shape :=
  .record [("files_changed", true, .scalar),
    ("change_flags", true, .record (changeFlags.map fun flag => (flag, true, .scalar))),
    ("touched_paths", false, .items .scalar)]

def ciShape : Shape :=
  .record [("status", true, .scalar), ("coverage_delta", false, .scalar),
    ("checks", false, .items (.record [("name", true, .scalar), ("url", false, .scalar),
      ("conclusion", false, .scalar)]))]

def securityShape : Shape :=
  .record [("critical_count", true, .scalar), ("high_count", true, .scalar)]

def canaryShape : Shape :=
  .record [("passed", true, .scalar), ("error_rate", false, .scalar),
    ("latency_delta", false, .scalar)]

def inputsShape : Shape :=
  .record [("learning_mode", true, .scalar), ("change_summary", true, changeSummaryShape),
    ("signals", true, .record [("ci", true, ciShape), ("security", true, securityShape),
      ("canary", false, canaryShape)])]

theorem run_conforms : Conforms run runShape := by
  refine .object (.closed (by decide) (by decide) ?_)
  simp only [List.forall₂_cons, List.forall₂_nil_left_iff, and_true]
  have text : Conforms notBlank .scalar := notBlank_conforms
  exact ⟨text.fills, text.fills, text.fills, text.fills, (atLeast_conforms 1).fills⟩

theorem changeFlags_conform :
    Conforms ((onlyMembers changeFlags).and
      (both (changeFlags.map fun flag => required flag .flag anything)))
      (.record (changeFlags.map fun flag => (flag, true, .scalar))) := by
  refine .only (by decide) (.record (by decide) ?_)
  rw [List.forall₂_map_left_iff, List.forall₂_map_right_iff]
  exact List.forall₂_same.2 fun flag _ => anything_conforms.fills

theorem changeSummary_conforms : Conforms changeSummary changeSummaryShape := by
  refine .closed (by decide) (by decide) ?_
  simp only [List.forall₂_cons, List.forall₂_nil_left_iff, and_true]
  exact ⟨(atLeast_conforms 0).fills, changeFlags_conform.fills_record,
    isText_conforms.items.fills_items⟩

theorem ci_conforms : Conforms ci ciShape := by
  have check : Conforms ciCheck (.record [("name", true, .scalar), ("url", false, .scalar),
      ("conclusion", false, .scalar)]) := by
    refine .object (.record (by decide) ?_)
    simp only [List.forall₂_cons, List.forall₂_nil_left_iff, and_true]
    exact ⟨anything_conforms.fills, anything_conforms.fills, anything_conforms.fills⟩
  refine .closed (by decide) (by decide) ?_
  simp only [List.forall₂_cons, List.forall₂_nil_left_iff, and_true]
  exact ⟨(oneOf_conforms _).fills, anything_conforms.fills, check.items.fills_items⟩

theorem security_conforms : Conforms security securityShape := by
  refine .closed (by decide) (by decide) ?_
  simp only [List.forall₂_cons, List.forall₂_nil_left_iff, and_true]
  exact ⟨(atLeast_conforms 0).fills, (atLeast_conforms 0).fills⟩

theorem canary_conforms : Conforms canary canaryShape := by
  refine .closed (by decide) (by decide) ?_
  simp only [List.forall₂_cons, List.forall₂_nil_left_iff, and_true]
  exact ⟨anything_conforms.fills, anything_conforms.fills, anything_conforms.fills⟩

/-- The inputs' contract reports each of its fields by itself, down to the single checks. -/
theorem inputs_conforms : Conforms inputs inputsShape := by
  refine .object (.closed (by decide) (by decide) ?_)
  simp only [List.forall₂_cons, List.forall₂_nil_left_iff, and_true]
  refine ⟨anything_conforms.fills, changeSummary_conforms.fills_record, Conforms.fills_record ?_⟩
  refine .closed (by decide) (by decide) ?_
  simp only [List.forall₂_cons, List.forall₂_nil_left_iff, and_true]
  exact ⟨ci_conforms.fills_record, security_conforms.fills_record, canary_conforms.fills_record⟩

end Contract

namespace SignalVector

def shape : Shape := .record (Signal.all.map fun s => (s.field, true, .scalar))

theorem field_apart {s t : Signal} (h : s.field = t.field) : s = t := by
  cases s <;> cases t <;> first | rfl | exact absurd h (by decide)

theorem mem_all (s : Signal) : s ∈ Signal.all := by
  cases s <;> decide

/-- A field of the shape is that of a signal. -/
theorem field_of_shape {p : Path} {needed : Bool} (field : shape.Field p needed) :
    ∃ s : Signal, p = [.text s.field] := by
  obtain ⟨name, required, _, q, rfl, known, rest⟩ := field.of_record
  obtain ⟨s, -, same⟩ := List.mem_map.1 known
  cases same
  obtain ⟨rfl, -⟩ | field := rest
  · exact ⟨s, rfl⟩
  · cases field

theorem issue?_sorted (s : Signal) (found : Option Value) :
    issue? s (found.map sorted) = issue? s found := by
  cases found with
  | none => rfl
  | some v => cases v <;> cases s <;> rfl

/-- Whether a signal has an issue does not depend on the order of members inside it. -/
theorem issue?_alike {v w : Option Value} (s : Signal) (hv : ∀ x ∈ v, x.WellFormed)
    (hw : ∀ x ∈ w, x.WellFormed) (alike : Option.Rel Value.Alike v w) :
    issue? s v = issue? s w := by
  cases alike with
  | none => rfl
  | some alike =>
      have same := (Json.alike_iff_sorted (hv _ rfl) (hw _ rfl)).1 alike
      rw [← issue?_sorted s (some _), Option.map_some, same, ← Option.map_some, issue?_sorted]

/-- An issue of a signal is about its field. -/
theorem issue?_below {s : Signal} {found : Option Value} {i : Issue}
    (h : issue? s found = some i) : i.below [.text s.field] = true := by
  unfold issue? at h
  split at h
  · cases h
    exact Issue.below_here _ _
  · cases h
    exact Issue.below_here _ _
  · obtain ⟨problem, -, rfl⟩ := Option.map_eq_some_iff.1 h
    exact Issue.below_here _ _

theorem under_issues (p : Path) (ms : List (Text × Value)) :
    Issue.under p (issues (.object ms)) =
      Signal.all.filterMap fun s => (issue? s (ms.lookup s.field)).filter (Issue.below p) :=
  List.filter_filterMap ..

theorem mem_issues {s : Signal} {v : Value} {i : Issue} (object : v.fits .object = true)
    (h : issue? s (v.member? s.field) = some i) : i ∈ issues v := by
  obtain ⟨ms, rfl⟩ := Check.fits_object.1 object
  exact List.mem_filterMap.2 ⟨s, mem_all s, h⟩

/-- The signal vector reports every signal at its own path. -/
theorem reports : Reports [] issues shape := by
  refine ⟨fun {p needed} field {v w} hv hw opens opens' agree => ?_,
    fun {p} field {v} opens absent => ?_⟩
  · obtain ⟨s, rfl⟩ := field_of_shape field
    obtain ⟨ms, rfl⟩ := Check.fits_object.1 opens.1
    obtain ⟨ns, rfl⟩ := Check.fits_object.1 opens'.1
    rw [List.nil_append, under_issues, under_issues]
    refine List.filterMap_congr fun t _ => ?_
    by_cases same : t = s
    · subst same
      have alike : Option.Rel Value.Alike (ms.lookup t.field) (ns.lookup t.field) := by
        simpa [Value.AgreeAt, Value.at?, Value.child?, Value.member?] using agree
      have own {ls : List (Text × Value)} (hl : (Value.object ls).WellFormed) :
          ∀ x ∈ ls.lookup t.field, x.WellFormed := fun x hx => Value.member_wellFormed hl hx
      rw [issue?_alike t (own hv) (own hw) alike]
    · have elsewhere (found : Option Value) :
          (issue? t found).filter (Issue.below [.text s.field]) = none := by
        refine Option.filter_eq_none_iff.2 fun i hi => Bool.not_eq_true _ ▸ ?_
        have ne : Key.text t.field ≠ .text s.field := fun h => same (field_apart (Key.text.inj h))
        exact Issue.not_below_of_ne (r := []) (p := []) ne (issue?_below hi)
      rw [elsewhere, elsewhere]
  · obtain ⟨s, rfl⟩ := field_of_shape field
    have none : v.member? s.field = none := by simpa [Value.at?, Value.child?] using absent
    exact mem_issues opens.1 (by rw [none]; rfl)

/-- Null counts as missing. -/
theorem null_missing {v : Value} {s : Signal} (object : v.fits .object = true)
    (null : v.member? s.field = some .null) : .at [.text s.field] .missing ∈ issues v :=
  mem_issues object (by rw [null]; rfl)

theorem ofValue_of_issues {v : Value} (some_ : issues v ≠ []) : ofValue v = .error (issues v) := by
  unfold ofValue
  cases found : issues v with
  | nil => exact absurd found some_
  | cons i is => rfl

end SignalVector

/-- What is found wrong with a known field does not go by the rest of the document, each required
field that is missing is reported, and signals and verdict inputs are refused with all there is. -/
theorem no_issue_hides_another :
    (∀ root, Reports root (Contract.run root) Contract.runShape) ∧
    (∀ root, Reports root (Contract.inputs root) Contract.inputsShape) ∧
    Reports [] SignalVector.issues SignalVector.shape ∧
    (∀ (v : Value) (s : Signal), v.fits .object = true → v.member? s.field = some .null →
      .at [.text s.field] .missing ∈ SignalVector.issues v) ∧
    (∀ v, SignalVector.issues v ≠ [] →
      SignalVector.ofValue v = .error (SignalVector.issues v)) ∧
    ∀ run inputs snapshot found, found = Contract.run (Path.root "run") run ++
        Contract.inputs (Path.root "inputs") inputs ++
        Contract.snapshot (Path.root "policy_evaluation") snapshot → found ≠ [] →
      Verdict.build run inputs snapshot = .error (.invalidVerdictInput found) :=
  ⟨fun root => Contract.run_conforms.reports root,
    fun root => Contract.inputs_conforms.reports root, SignalVector.reports,
    fun _ _ => SignalVector.null_missing, fun _ => SignalVector.ofValue_of_issues,
    fun _ _ _ _ same => Verdict.build_of_issues same.symm⟩

def brokenRun : Value := .object [("run_id", .str " "), ("pr_number", .int 0)]

def brokenInputs : Value :=
  .object [("learning_mode", .str "yes"),
    ("signals", .object [("ci", .object [("checks", .list [.object [("url", .int 1)]])]),
      ("security", .list []), ("canary", .object [("passed", .bool true), ("rate", .str "low")])])]

def bareInputs : Value := .object [("signals", .object [("ci", .object [])])]

/-- The missing status is reported in both inputs alike, and all the rest is reported with it. -/
theorem no_issue_hides_another_broken :
    Issue.under [.text "inputs", .text "signals", .text "ci", .text "status"]
        (Contract.inputs (Path.root "inputs") brokenInputs) =
      Issue.under [.text "inputs", .text "signals", .text "ci", .text "status"]
        (Contract.inputs (Path.root "inputs") bareInputs) ∧
    .at [.text "inputs", .text "signals", .text "ci", .text "status"] .missing ∈
      Contract.inputs (Path.root "inputs") brokenInputs ∧
    ∃ found, Verdict.build brokenRun brokenInputs .null = .error (.invalidVerdictInput found) ∧
      found.map Issue.text =
        [↑"run.run_id: must not be empty", ↑"run.repo: missing", ↑"run.head_sha: missing",
          ↑"run.timestamp_utc: missing", ↑"run.pr_number: must be >= 1",
          ↑"inputs.learning_mode: expected boolean, got str", ↑"inputs.change_summary: missing",
          ↑"inputs.signals.ci.status: missing", ↑"inputs.signals.ci.checks[0].name: missing",
          ↑"inputs.signals.ci.checks[0].url: expected string, got int",
          ↑"inputs.signals.security: expected object, got list",
          ↑"inputs.signals.canary.rate: unknown property",
          ↑"policy_evaluation: expected object"] := by
  obtain ⟨-, reports, -, -, -, refused⟩ := no_issue_hides_another
  have status : Contract.inputsShape.Field [.text "signals", .text "ci", .text "status"] true :=
    .within (List.mem_cons_of_mem _ (List.mem_cons_of_mem _ List.mem_cons_self))
      (.within List.mem_cons_self (.member List.mem_cons_self))
  have broken : brokenInputs.WellFormed := by
    simp [brokenInputs, Value.WellFormed, Value.MembersWellFormed, Value.ItemsWellFormed]
  have bare : bareInputs.WellFormed := by
    simp [bareInputs, Value.WellFormed, Value.MembersWellFormed]
  have opens : brokenInputs.Opens [.text "signals", .text "ci", .text "status"] :=
    ⟨rfl, Or.inr ⟨_, rfl, rfl, Or.inr ⟨_, rfl, rfl, Or.inl rfl⟩⟩⟩
  have opens' : bareInputs.Opens [.text "signals", .text "ci", .text "status"] :=
    ⟨rfl, Or.inr ⟨_, rfl, rfl, Or.inr ⟨_, rfl, rfl, Or.inl rfl⟩⟩⟩
  exact ⟨(reports (Path.root "inputs")).alone status broken bare opens opens' .none,
    (reports (Path.root "inputs")).missing status opens rfl,
    _, refused _ _ _ _ rfl (by decide +kernel), by decide +kernel⟩

end ReleaseGate
