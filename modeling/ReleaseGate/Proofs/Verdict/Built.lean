import ReleaseGate.Proofs.Verdict.Reasons

/-!
How the building of a verdict ends. It is refused with all issues of its inputs when there are any;
otherwise the document is composed without a fault and meets the contract of verdicts, but for one
place: a snapshot may name a version of blanks only, and a verdict may not.
-/

namespace ReleaseGate

namespace Contract

open Check

theorem required_score {path : Path} {doc : Value} {key : Text} {i : Int}
    (found : doc.member? key = some (.int i)) (score : Scorecard.IsScore i) :
    required key .integer (between 0 100) path doc = [] := by
  have least := Value.notAfter?_at (v := .int 0) rfl (w := .int i) rfl
  have most := Value.notAfter?_at (v := .int i) rfl (w := .int 100) rfl
  have units : (0 : Int) ≤ quantaPerUnit := Int.natCast_nonneg _
  refine (required_clean_of found).2 ⟨rfl, between_clean.2 ⟨least.trans ?_, most.trans ?_⟩⟩
  · rw [decide_eq_true (Int.mul_le_mul_of_nonneg_right score.1 units)]
  · rw [decide_eq_true (Int.mul_le_mul_of_nonneg_right score.2 units)]

theorem riskLevel_listed (level : RiskLevel) : level.name ∈ riskLevels := by
  cases level <;> decide

theorem scorecard_clean (path : Path) {s : Scorecard} (ranged : s.Ranged) :
    scorecard path s.toValue = [] := by
  have level : (s.toValue.member? "risk_level") = some (.str s.riskLevel.name) := rfl
  have dimensions : s.toValue.member? "dimensions" = some (.object [("tests", .int s.tests),
    ("security", .int s.security), ("risk", .int s.risk), ("ops", .int s.ops),
    ("policy", .int s.policy)]) := rfl
  refine object_clean.2 ⟨_, rfl, ?_⟩
  rw [← Scorecard.toValue]
  simp only [both_cons_clean, both_nil_clean, and_clean, scoreDimensions, List.map_cons,
    List.map_nil, required_clean_of dimensions, required_oneOf level, and_true]
  refine ⟨onlyMembers_clean.2 fun _ hk => hk, required_score rfl ranged.overall,
    ⟨rfl, onlyMembers_clean.2 fun _ hk => hk, ?_⟩, ⟨_, riskLevel_listed _, rfl⟩⟩
  exact ⟨required_score rfl ranged.tests, required_score rfl ranged.security,
    required_score rfl ranged.risk, required_score rfl ranged.ops, required_score rfl ranged.policy⟩

theorem required_of_text {path : Path} {doc : Value} {key s : Text} {check : Check Value}
    (found : doc.member? key = some (.str s)) :
    required key .text check path doc = check (path.member key) (.str s) := by
  simp only [required, member, document_member, found]
  rfl

theorem texts_clean (path : Path) {vs : List Value} (texts : ∀ v ∈ vs, ∃ s, v = .str s) :
    each isText path (Value.list vs) = [] := by
  have every : each isText path (Value.list (vs.map id)) = [] :=
    (each_clean fun _ _ => isText_clean).2 texts
  rw [List.map_id] at every
  exact every

theorem proposal_clean (path : Path) {action : Value} {confidence : Double} (steps : List Text)
    (proposed : action.OneOf factoryActions) (share : (Value.float confidence).InUnit) :
    proposal path (.object [("proposed_action", action), ("confidence", .float confidence),
      ("recommended_next_steps", .ofTexts steps)]) = [] := by
  simp only [proposal, both_cons_clean, both_nil_clean, and_true]
  refine ⟨onlyMembers_clean.2 fun _ hk => hk, (required_oneOf rfl).2 proposed,
    (required_inUnit rfl).2 share, required_list.2 ⟨_, rfl, texts_clean _ fun v hv => ?_⟩⟩
  obtain ⟨s, -, rfl⟩ := List.mem_map.1 hv
  exact ⟨s, rfl⟩

theorem rationale_clean (path : Path) {r : Rationale} (admitted : r.Admitted) :
    rationale path (.object [("summary", .str r.summary),
      ("key_evidence_refs", .list r.evidence)]) = [] := by
  simp only [rationale, both_cons_clean, both_nil_clean, and_true]
  exact ⟨onlyMembers_clean.2 fun _ hk => hk,
    required_text.2 ⟨_, rfl, notBlank_clean.2 admitted.summary⟩,
    required_list.2 ⟨_, rfl, texts_clean _ admitted.evidence⟩⟩

end Contract

namespace Verdict

open Contract Check

variable {run inputs snapshot : Value}

theorem inputIssues_clean : inputIssues run inputs snapshot = [] ↔
    Contract.run (Path.root "run") run = [] ∧ Contract.inputs (Path.root "inputs") inputs = [] ∧
      Contract.snapshot (Path.root "policy_evaluation") snapshot = [] := by
  rw [inputIssues, List.append_eq_nil_iff, List.append_eq_nil_iff, and_assoc]

/-- A snapshot that names a version of blanks only. -/
def BlankVersion (snapshot : Value) : Prop :=
  ∃ s, snapshot.member? "policy_version" = some (.str s) ∧ s ≠ "" ∧ Text.isBlankText s = true

theorem versionOf_blank (blank : BlankVersion snapshot) :
    ∃ s, versionOf snapshot = .str s ∧ Text.isBlankText s = true := by
  obtain ⟨s, found, some_, blanks⟩ := blank
  have truthy : (Value.str s).truthy = true := by simp [Value.truthy, some_]
  exact ⟨s, by rw [versionOf, found]; exact if_pos truthy, blanks⟩

theorem versionOf_full (read : SnapshotRead snapshot) (full : ¬BlankVersion snapshot) :
    ∃ s, versionOf snapshot = .str s ∧ Text.isBlankText s = false := by
  cases found : snapshot.member? "policy_version" with
  | none => exact ⟨policySchema, by rw [versionOf, found], by decide⟩
  | some v =>
      obtain ⟨s, rfl⟩ := read.version v found
      by_cases empty : s = ""
      · exact ⟨policySchema, by rw [versionOf, found, empty]; rfl, by decide⟩
      · have truthy : (Value.str s).truthy = true := by simp [Value.truthy, empty]
        refine ⟨s, by rw [versionOf, found]; exact if_pos truthy, ?_⟩
        exact Bool.eq_false_iff.2 fun blank => full ⟨s, found, empty, blank⟩

/-- The parts are as the contract of verdicts asks for them; what is left is the version. -/
theorem document_issues {scores : Scorecard} {action : Value} {confidence : Double} {r : Rationale}
    {version : Text} (clean : inputIssues run inputs snapshot = [])
    (text : versionOf snapshot = .str version) (ranged : scores.Ranged)
    (proposed : action.OneOf factoryActions) (share : (Value.float confidence).InUnit)
    (admitted : r.Admitted) :
    verdictIssues (document run inputs snapshot scores action confidence r) =
      notBlank (Path.root "policy_version") (Value.str version) := by
  let doc := document run inputs snapshot scores action confidence r
  obtain ⟨cleanRun, cleanInputs, cleanSnapshot⟩ := inputIssues_clean.1 clean
  have known : onlyMembers verdictMembers [] doc = [] := onlyMembers_clean.2 fun _ hk => hk
  have named : doc.member? "policy_version" = some (.str version) := congrArg some text
  have current : required "schema_version" .text (schema verdictSchema) [] doc = [] :=
    required_text.2 ⟨_, rfl, schema_clean.2 rfl⟩
  have versioned : required "policy_version" .text notBlank [] doc =
      notBlank (Path.root "policy_version") (Value.str version) := required_of_text named
  have runs : requiredAny "run" Contract.run [] doc = [] :=
    requiredAny_clean.2 ⟨run, rfl, cleanRun⟩
  have reads : requiredAny "inputs" Contract.inputs [] doc = [] :=
    requiredAny_clean.2 ⟨inputs, rfl, cleanInputs⟩
  have evaluates : requiredAny "policy_evaluation" Contract.snapshot [] doc = [] :=
    requiredAny_clean.2 ⟨snapshot, rfl, cleanSnapshot⟩
  have scored : requiredAny "scorecard" scorecard [] doc = [] :=
    requiredAny_clean.2 ⟨_, rfl, scorecard_clean _ ranged⟩
  have proposes : required "verdict" .object proposal [] doc = [] :=
    required_clean.2 ⟨_, rfl, rfl, proposal_clean _ _ proposed share⟩
  have reasons : required "rationale" .object rationale [] doc = [] :=
    required_clean.2 ⟨_, rfl, rfl, rationale_clean _ admitted⟩
  have parts : verdictParts [] doc = notBlank (Path.root "policy_version") (Value.str version) := by
    simp only [verdictParts, both, List.flatMap_cons, List.flatMap_nil, current, versioned, runs,
      reads, evaluates, scored, proposes, reasons, List.nil_append, List.append_nil]
  have object : doc.fits .object = true := rfl
  show (if doc.fits .object then ((onlyMembers verdictMembers).and verdictParts) [] doc else _) = _
  rw [if_pos object, Check.and, known, parts, List.nil_append]

/-- Accepted arguments are always composed into a document. -/
theorem compose_yields (clean : inputIssues run inputs snapshot = []) {version : Text}
    (text : versionOf snapshot = .str version) :
    Yields (compose run inputs snapshot) fun doc =>
      verdictIssues doc = notBlank (Path.root "policy_version") (Value.str version) := by
  obtain ⟨-, cleanInputs, cleanSnapshot⟩ := inputIssues_clean.1 clean
  have read := inputs_read cleanInputs
  have policyRead := snapshot_read cleanSnapshot
  refine (Scorecard.compute_yields read policyRead).bind fun scores ranged => ?_
  refine (proposedAction_yields read policyRead scores.overall).bind fun action proposed => ?_
  refine (Scorecard.confidence_yields ranged.overall _).bind fun confidence share => ?_
  refine (Rationale.build_yields read policyRead _ _ action).bind fun r admitted => ?_
  exact .ok (document_issues clean text ranged proposed share admitted)

theorem build_of_issues {issues : List Issue} (found : inputIssues run inputs snapshot = issues)
    (some_ : issues ≠ []) : build run inputs snapshot = .error (.invalidVerdictInput issues) := by
  rw [build, found]
  cases issues with
  | nil => exact absurd rfl some_
  | cons i is => rfl

theorem build_of_clean (clean : inputIssues run inputs snapshot = []) {version : Text}
    (text : versionOf snapshot = .str version) :
    ∃ doc, verdictIssues doc = notBlank (Path.root "policy_version") (Value.str version) ∧
      build run inputs snapshot = (refuse (verdictIssues doc)).map fun _ => doc := by
  obtain ⟨doc, composed, issues⟩ := compose_yields clean text
  refine ⟨doc, issues, ?_⟩
  rw [build, clean, composed]
  show (check doc >>= fun _ => pure doc) = _
  rw [check]
  cases refuse (verdictIssues doc) <;> rfl

/-- Accepted arguments with a version give a verdict that keeps its contract. -/
theorem build_of_full (clean : inputIssues run inputs snapshot = [])
    (full : ¬BlankVersion snapshot) :
    ∃ doc, build run inputs snapshot = .ok doc ∧ verdictIssues doc = [] := by
  have read := snapshot_read (inputIssues_clean.1 clean).2.2
  obtain ⟨version, text, shown⟩ := versionOf_full read full
  obtain ⟨doc, issues, built⟩ := build_of_clean clean text
  rw [notBlank_clean.2 shown] at issues
  exact ⟨doc, by rw [built, issues]; rfl, issues⟩

/-- Accepted arguments with a blank version end in a contract violation. -/
theorem build_of_blank (clean : inputIssues run inputs snapshot = [])
    (blank : BlankVersion snapshot) :
    build run inputs snapshot =
      .error (.contractViolation "verdict" [.at (Path.root "policy_version") .blank]) := by
  obtain ⟨version, text, blanks⟩ := versionOf_blank blank
  obtain ⟨doc, issues, built⟩ := build_of_clean clean text
  have found : verdictIssues doc = [.at (Path.root "policy_version") .blank] :=
    issues.trans (if_pos blanks)
  rw [built, found]
  rfl

/-- Inputs with issues are refused, and nothing else is refused as they are. Checked inputs make a
verdict that meets its contract, unless the snapshot names a version of blanks only. -/
theorem build_ends (run inputs snapshot : Value) :
    (∀ issues, build run inputs snapshot = .error (.invalidVerdictInput issues) ↔
      issues = inputIssues run inputs snapshot ∧ issues ≠ []) ∧
    (inputIssues run inputs snapshot = [] → ¬BlankVersion snapshot →
      ∃ doc, build run inputs snapshot = .ok doc ∧ verdictIssues doc = []) ∧
    (inputIssues run inputs snapshot = [] → BlankVersion snapshot →
      build run inputs snapshot =
        .error (.contractViolation "verdict" [.at (Path.root "policy_version") .blank])) := by
  refine ⟨fun issues => ⟨fun refused => ?_, fun ⟨found, some_⟩ => build_of_issues found.symm some_⟩,
    build_of_full, build_of_blank⟩
  by_cases clean : inputIssues run inputs snapshot = []
  · by_cases blank : BlankVersion snapshot
    · rw [build_of_blank clean blank] at refused
      cases refused
    · obtain ⟨doc, built, -⟩ := build_of_full clean blank
      rw [built] at refused
      cases refused
  · rw [build_of_issues rfl clean] at refused
    cases refused
    exact ⟨rfl, clean⟩

def rollbackPart (name : Text) : Value := (rollback.member? name).getD .null

def namingSnapshot (version : Text) : Value :=
  .object ((rollbackPart "policy_evaluation").members ++
    ([("policy_version", .str version)] : List (Text × Value)))

/-- With no version the verdict is built, with a blank one it breaks its contract, and without a
snapshot the inputs are refused. -/
theorem build_ends_rollback :
    (∃ doc, build (rollbackPart "run") (rollbackPart "inputs") (namingSnapshot "") = .ok doc ∧
      verdictIssues doc = []) ∧
    build (rollbackPart "run") (rollbackPart "inputs") (namingSnapshot " ") =
      .error (.contractViolation "verdict" [.at (Path.root "policy_version") .blank]) ∧
    build (rollbackPart "run") (rollbackPart "inputs") .null =
      .error (.invalidVerdictInput [.at (Path.root "policy_evaluation") .notAnObject]) := by
  have noneNamed : ¬BlankVersion (namingSnapshot "") := by
    rintro ⟨s, found, some_, -⟩
    have same : some (Value.str "") = some (.str s) := found
    cases same
    exact some_ rfl
  have blankNamed : BlankVersion (namingSnapshot " ") := ⟨" ", rfl, by decide, by decide⟩
  exact ⟨(build_ends _ _ _).2.1 (by decide +kernel) noneNamed,
    (build_ends _ _ _).2.2 (by decide +kernel) blankNamed,
    ((build_ends _ _ _).1 _).2 ⟨by decide +kernel, by decide⟩⟩

/-- Each part passes its own check, and the verdict breaks its contract. -/
theorem blank_version_violates :
    inputIssues (rollbackPart "run") (rollbackPart "inputs") (namingSnapshot " ") = [] ∧
    build (rollbackPart "run") (rollbackPart "inputs") (namingSnapshot " ") =
      .error (.contractViolation "verdict" [.at (Path.root "policy_version") .blank]) := by
  have clean : inputIssues (rollbackPart "run") (rollbackPart "inputs") (namingSnapshot " ") =
      [] := by decide +kernel
  exact ⟨clean, build_of_blank clean ⟨" ", rfl, by decide, by decide⟩⟩

end Verdict

end ReleaseGate
