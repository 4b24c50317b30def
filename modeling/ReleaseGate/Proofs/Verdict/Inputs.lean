import ReleaseGate.Proofs.Steps
import ReleaseGate.Proofs.Verdict.Parts

/-!
What can be read of the parts that a verdict is built from once their contracts admit them. Each
structure lists the readings that scores, action and rationale make of a part; each theorem derives
them from its contract.
-/

namespace ReleaseGate

namespace Check

variable {path : Path} {doc : Value} {key : Text} {kind : Kind} {check : Check Value}

/-- A member whose check finds nothing is there to be read. -/
theorem need_yields (clean : required key kind check path doc = []) :
    Yields (doc.need key) fun v => v.fits kind = true ∧ check (path.member key) v = [] := by
  obtain ⟨v, found, fit, clean⟩ := required_clean.1 clean
  exact ⟨v, Verdict.need_of_member found, fit, clean⟩

theorem find_yields (object : doc.fits .object = true)
    (clean : optional key kind check path doc = []) :
    Yields (doc.find key) fun found =>
      ∀ v ∈ found, v.fits kind = true ∧ check (path.member key) v = [] := by
  obtain ⟨ms, rfl⟩ := fits_object.1 object
  exact ⟨ms.lookup key, rfl, fun v found => optional_clean.1 clean v found⟩

theorem findSome_yields (object : doc.fits .object = true)
    (clean : optional key kind check path doc = []) :
    Yields (doc.findSome key) fun found =>
      ∀ v ∈ found, v.fits kind = true ∧ check (path.member key) v = [] := by
  refine (find_yields object clean).bind fun found fits => ?_
  split
  · exact .ok (fun v hv => nomatch hv)
  · exact .ok (fun v hv => nomatch hv)
  · exact .ok fits

theorem both_map_clean {α : Type} {f : α → Check Value} {as : List α} :
    both (as.map f) path doc = [] ↔ ∀ a ∈ as, f a path doc = [] := by
  rw [both, List.flatMap_eq_nil_iff, List.forall_mem_map]

theorem isText_clean {v : Value} : (isText : Check Value) path v = [] ↔ ∃ s, v = .str s := by
  rw [← fits_text]
  show (if v.fits .text = true then _ else _) = [] ↔ _
  by_cases fit : v.fits .text = true <;> simp [fit]

end Check

namespace Verdict

open Check

structure CiRead (ci : Value) : Prop where
  status : Yields (ci.need "status") fun _ => True
  delta : Yields (ci.findSome "coverage_delta") fun found => ∀ v ∈ found, v.fits .number = true
  checks : Yields (ci.find "checks") fun found => ∀ v ∈ found, ∃ cs, v = .list cs ∧
    ∀ c ∈ cs, Yields (c.find "url") fun found => ∀ url ∈ found, ∃ s, url = .str s

structure SecurityRead (security : Value) : Prop where
  critical : Yields (security.need "critical_count") fun v => v.fits .integer = true
  high : Yields (security.need "high_count") fun v => v.fits .integer = true

structure CanaryRead (canary : Value) : Prop where
  passed : Yields (canary.need "passed") fun _ => True
  rate : Yields (canary.findSome "error_rate") fun found => ∀ v ∈ found, v.fits .number = true
  delta : Yields (canary.findSome "latency_delta") fun found => ∀ v ∈ found, v.fits .number = true

structure SignalsRead (signals : Value) : Prop where
  ci : Yields (signals.need "ci") CiRead
  security : Yields (signals.need "security") SecurityRead
  canary : Yields (signals.find "canary") fun found => ∀ v ∈ found, CanaryRead v

structure FlagsRead (flags : Value) : Prop where
  find : ∀ flag, Yields (flags.find flag) fun _ => True
  infra : Yields (flags.need "infra_change") fun _ => True
  db : Yields (flags.need "db_migration") fun _ => True

structure SummaryRead (summary : Value) : Prop where
  flags : Yields (summary.need "change_flags") FlagsRead
  files : Yields (summary.need "files_changed") fun v => v.fits .integer = true
  paths : Yields (summary.find "touched_paths") fun found =>
    ∀ v ∈ found, ∃ ps, v = .list ps ∧ ∀ p ∈ ps, ∃ s, p = .str s

structure InputsRead (inputs : Value) : Prop where
  learning : Yields (inputs.need "learning_mode") fun _ => True
  summary : Yields (inputs.need "change_summary") SummaryRead
  signals : Yields (inputs.need "signals") SignalsRead

structure SnapshotRead (snapshot : Value) : Prop where
  rules : Yields (snapshot.need "matched_rules") fun v => ∃ rs, v = .list rs ∧
    ∀ r ∈ rs, Yields (r.need "severity") fun _ => True
  action : Yields (snapshot.need "policy_action") fun _ => True
  asked : Yields (snapshot.need "proposed_factory_action") fun v => v.OneOf Contract.snapshotActions
  version : ∀ v, snapshot.member? "policy_version" = some v → ∃ s, v = .str s

variable {path : Path} {v : Value}

theorem ci_read (object : v.fits .object = true) (clean : Contract.ci path v = []) : CiRead v := by
  simp only [Contract.ci, both_cons_clean] at clean
  obtain ⟨-, status, delta, checks, -⟩ := clean
  refine ⟨(need_yields status).mono fun _ _ => trivial,
    (findSome_yields object delta).mono fun _ fits v hv => (fits v hv).1,
    (find_yields object checks).mono fun _ fits v hv => ?_⟩
  obtain ⟨list, clean⟩ := fits v hv
  obtain ⟨cs, rfl⟩ := fits_list.1 list
  refine ⟨cs, rfl, fun c hc => ?_⟩
  obtain ⟨place, checked⟩ := each_items clean c hc
  rw [Contract.ciCheck, object_clean] at checked
  obtain ⟨ms, rfl, checked⟩ := checked
  simp only [both_cons_clean] at checked
  exact (find_yields rfl checked.2.1).mono fun _ fits url hu => fits_text.1 (fits url hu).1

theorem security_read (clean : Contract.security path v = []) : SecurityRead v := by
  simp only [Contract.security, both_cons_clean] at clean
  exact ⟨(need_yields clean.2.1).mono fun _ => And.left,
    (need_yields clean.2.2.1).mono fun _ => And.left⟩

theorem canary_read (object : v.fits .object = true) (clean : Contract.canary path v = []) :
    CanaryRead v := by
  simp only [Contract.canary, both_cons_clean] at clean
  exact ⟨(need_yields clean.2.1).mono fun _ _ => trivial,
    (findSome_yields object clean.2.2.1).mono fun _ fits v hv => (fits v hv).1,
    (findSome_yields object clean.2.2.2.1).mono fun _ fits v hv => (fits v hv).1⟩

theorem flags_read (object : v.fits .object = true)
    (clean : both (Contract.changeFlags.map fun flag => required flag .flag anything) path v = []) :
    FlagsRead v := by
  have flags := both_map_clean.1 clean
  obtain ⟨ms, rfl⟩ := fits_object.1 object
  exact ⟨fun _ => .ok trivial,
    (need_yields (flags "infra_change" (by decide))).mono fun _ _ => trivial,
    (need_yields (flags "db_migration" (by decide))).mono fun _ _ => trivial⟩

theorem summary_read (object : v.fits .object = true) (clean : Contract.changeSummary path v = []) :
    SummaryRead v := by
  simp only [Contract.changeSummary, both_cons_clean] at clean
  obtain ⟨-, files, flags, paths, -⟩ := clean
  refine ⟨(need_yields flags).mono fun w hw => flags_read hw.1 (and_clean.1 hw.2).2,
    (need_yields files).mono fun _ => And.left,
    (find_yields object paths).mono fun _ fits v hv => ?_⟩
  obtain ⟨list, clean⟩ := fits v hv
  obtain ⟨ps, rfl⟩ := fits_list.1 list
  refine ⟨ps, rfl, fun p hp => ?_⟩
  obtain ⟨place, text⟩ := each_items clean p hp
  exact isText_clean.1 text

/-- Inputs that pass their contract can be read to the end. -/
theorem inputs_read (clean : Contract.inputs path v = []) : InputsRead v := by
  rw [Contract.inputs, object_clean] at clean
  obtain ⟨ms, rfl, clean⟩ := clean
  simp only [both_cons_clean] at clean
  obtain ⟨-, learning, summary, signals, -⟩ := clean
  refine ⟨(need_yields learning).mono fun _ _ => trivial,
    (need_yields summary).mono fun w hw => summary_read hw.1 hw.2,
    (need_yields signals).mono fun w hw => ?_⟩
  obtain ⟨object, clean⟩ := hw
  simp only [both_cons_clean] at clean
  obtain ⟨-, ci, security, canary, -⟩ := clean
  exact ⟨(need_yields ci).mono fun w hw => ci_read hw.1 hw.2,
    (need_yields security).mono fun w hw => security_read hw.2,
    (find_yields object canary).mono fun _ fits w hw => canary_read (fits w hw).1 (fits w hw).2⟩

theorem snapshot_read (clean : Contract.snapshot path v = []) : SnapshotRead v := by
  rw [Contract.snapshot, object_clean] at clean
  obtain ⟨ms, rfl, clean⟩ := clean
  simp only [both_cons_clean] at clean
  obtain ⟨-, rules, action, asked, version, -⟩ := clean
  refine ⟨(need_yields rules).mono fun w hw => ?_, (need_yields action).mono fun _ _ => trivial,
    (need_yields asked).mono fun w hw => ?_,
    fun w hw => fits_text.1 (optional_clean.1 version w hw).1⟩
  · obtain ⟨rs, rfl⟩ := fits_list.1 hw.1
    refine ⟨rs, rfl, fun r hr => ?_⟩
    obtain ⟨place, clean⟩ := each_items hw.2 r hr
    rw [Contract.matchedRule, object_clean] at clean
    obtain ⟨ms, rfl, clean⟩ := clean
    simp only [both_cons_clean] at clean
    exact (need_yields clean.2.2.1).mono fun _ _ => trivial
  · obtain ⟨text, member⟩ := hw
    obtain ⟨s, rfl⟩ := fits_text.1 text
    exact ⟨s, oneOf_clean.1 member, rfl⟩

end Verdict

end ReleaseGate
