import ReleaseGate.Proofs.Verdict.Accord
import ReleaseGate.Proofs.Verdict.Digest

/-!
Where the texts of a verdict come from. Its document has bytes exactly if the run, the inputs and
the snapshot have that it was built from; what the building adds to these is written in strings.
-/

namespace ReleaseGate

namespace Value

theorem display_isString {v : Value} (h : v.isEncodable = true) : v.display.isString = true := by
  cases v with
  | str s => exact h
  | null | bool _ | int _ | float _ | list _ | object _ => rfl

section

variable {v w : Value} {key : Text} (h : v.isEncodable = true)
include h

theorem need_isEncodable (found : v.need key = .ok w) : w.isEncodable = true :=
  member_isEncodable h (member?_of_need found)

theorem find_isEncodable (found : v.find key = .ok (some w)) : w.isEncodable = true := by
  cases v with
  | object ms => exact member_isEncodable h (Except.ok.inj found)
  | null | bool _ | int _ | float _ | str _ | list _ => cases found

theorem walk_isEncodable {vs : List Value} (walked : v.walk = .ok vs) :
    ∀ w ∈ vs, w.isEncodable = true := by
  cases v with
  | list ws =>
      cases walked
      rwa [isEncodable_list, List.all_eq_true] at h
  | object ms =>
      cases walked
      rw [isEncodable_object, List.all_eq_true] at h
      exact List.forall_mem_map.2 fun m hm => (Bool.and_eq_true_iff.1 (h m hm)).1
  | str s =>
      cases walked
      have all : s.isString = true := h
      rw [Text.isString_eq_all, List.all_eq_true] at all
      refine List.forall_mem_map.2 fun c hc => ?_
      simp [Text.singleton, all c hc]
  | null | bool _ | int _ | float _ => cases walked

end

end Value

theorem Text.intercalate_isString {between : Text} (hb : between.isString = true) {ts : List Text}
    (h : ∀ t ∈ ts, t.isString = true) : (Text.intercalate between ts).isString = true := by
  fun_induction Text.intercalate between ts with
  | case1 => rfl
  | case2 t => exact h t (List.mem_singleton_self t)
  | case3 t ts more ih =>
      obtain ⟨first, rest⟩ := List.forall_mem_cons.1 h
      simp [first, hb, ih rest]

namespace Rationale

open Value (need_isEncodable find_isEncodable walk_isEncodable display_isString)

theorem checkLink_isEncodable {check url : Value} (h : check.isEncodable = true)
    (found : checkLink check = .ok (some url)) : url.isEncodable = true := by
  obtain ⟨given, looked, found⟩ := bind_eq_ok found
  cases given with
  | none => cases found
  | some w =>
      dsimp only at found
      split at found
      · cases found
        exact find_isEncodable h looked
      · cases found

theorem evidenceOf_isEncodable {ci : Value} (h : ci.isEncodable = true) {evidence : List Value}
    (found : evidenceOf ci = .ok evidence) : ∀ v ∈ evidence, v.isEncodable = true := by
  obtain ⟨given, looked, found⟩ := bind_eq_ok found
  cases given with
  | none =>
      cases found
      exact List.forall_mem_nil _
  | some checks =>
      dsimp only at found
      split at found
      · cases found
        exact List.forall_mem_nil _
      · obtain ⟨cs, walked, found⟩ := bind_eq_ok found
        obtain ⟨links, linked, found⟩ := bind_eq_ok found
        cases found
        intro v hv
        obtain ⟨link, among, rfl⟩ := List.mem_filterMap.1 (List.mem_of_mem_take hv)
        obtain ⟨check, hcheck, links⟩ := mem_of_mapM linked _ among
        exact checkLink_isEncodable
          (walk_isEncodable (find_isEncodable h looked) walked _ hcheck) links

theorem setFlags_sub {flags : Value} {table set : List (Text × Text)}
    (h : setFlags flags table = .ok set) : ∀ entry ∈ set, entry ∈ table := by
  induction table generalizing set with
  | nil =>
      cases h
      exact List.forall_mem_nil _
  | cons entry rest ih =>
      obtain ⟨found, -, h⟩ := bind_eq_ok h
      obtain ⟨others, listed, h⟩ := bind_eq_ok h
      have later : ∀ e ∈ others, e ∈ entry :: rest :=
        fun e he => List.mem_cons_of_mem entry (ih listed e he)
      have kept := (Except.ok.inj h).symm
      rw [kept]
      split
      · exact List.forall_mem_cons.2 ⟨List.mem_cons_self, later⟩
      · exact later

theorem flagSteps_strings :
    ∀ entry ∈ flagSteps, entry.1.isString = true ∧ entry.2.isString = true := by
  decide

theorem blockers_strings (f : Findings) :
    ∀ b ∈ f.blockers, b.text.isString = true ∧ b.step.isString = true := by
  have all : ∀ b ∈ Findings.allBlockers, b.text.isString = true ∧ b.step.isString = true := by
    decide
  exact fun b hb => all b (f.blockers_sub b hb)

/-- A summary of encodable parts is encodable. -/
theorem summaryText_isString {action overall riskLevel policyAction : Value}
    (ha : action.isEncodable = true) (ho : overall.isEncodable = true)
    (hr : riskLevel.isEncodable = true) (hp : policyAction.isEncodable = true)
    {blockers flags : List Text} (hb : ∀ t ∈ blockers, t.isString = true)
    (hf : ∀ t ∈ flags, t.isString = true) :
    (summaryText action overall riskLevel policyAction blockers flags).isString = true := by
  have listed {ts : List Text} (h : ∀ t ∈ ts, t.isString = true) :
      (Text.intercalate ", " ts).isString = true := Text.intercalate_isString rfl h
  refine Text.intercalate_isString rfl ?_
  simp only [List.forall_mem_append, List.forall_mem_cons]
  refine ⟨⟨⟨?_, ?_, ?_, List.forall_mem_nil _⟩, ?_⟩, ?_⟩
  · simp [display_isString ha]
  · simp [display_isString ho, display_isString hr]
  · simp [display_isString hp]
  · split
    · exact List.forall_mem_nil _
    · exact List.forall_mem_singleton.2 (by simp [listed hb])
  · split
    · exact List.forall_mem_nil _
    · exact List.forall_mem_singleton.2 (by simp [listed hf])

structure Encodable (r : Rationale) : Prop where
  summary : r.summary.isString = true
  steps : ∀ s ∈ r.steps, s.isString = true
  evidence : ∀ v ∈ r.evidence, v.isEncodable = true

/-- A rationale built on encodable inputs is encodable. -/
theorem build_encodable {inputs snapshot overall riskLevel action : Value} {r : Rationale}
    {signals : Value} {f : Findings} (given : inputs.need "signals" = .ok signals)
    (findings : f.Of signals snapshot) (hi : inputs.isEncodable = true)
    (hs : snapshot.isEncodable = true) (ha : action.isEncodable = true)
    (ho : overall.isEncodable = true) (hr : riskLevel.isEncodable = true)
    (h : build inputs snapshot overall riskLevel action = .ok r) : r.Encodable := by
  obtain ⟨_, found, h⟩ := bind_eq_ok h
  cases given.symm.trans found
  obtain ⟨_, listed, h⟩ := bind_eq_ok h
  cases listed.symm.trans (Findings.blockersOf_eq findings)
  obtain ⟨summary, -, h⟩ := bind_eq_ok h
  obtain ⟨changed, -, h⟩ := bind_eq_ok h
  obtain ⟨flags, set, h⟩ := bind_eq_ok h
  obtain ⟨ci, checks, h⟩ := bind_eq_ok h
  obtain ⟨fell, -, h⟩ := bind_eq_ok h
  obtain ⟨policyAction, asked, h⟩ := bind_eq_ok h
  obtain ⟨evidence, linked, h⟩ := bind_eq_ok h
  cases h
  have blockers := blockers_strings f
  have known : ∀ entry ∈ flags, entry.1.isString = true ∧ entry.2.isString = true :=
    fun entry he => flagSteps_strings entry (setFlags_sub set entry he)
  refine ⟨summaryText_isString ha ho hr (need_isEncodable hs asked)
    (List.forall_mem_map.2 fun b hb => (blockers b hb).1)
    (List.forall_mem_map.2 fun entry he => (known entry he).1), fun s hs => ?_,
    evidenceOf_isEncodable (need_isEncodable (need_isEncodable hi given) checks) linked⟩
  have step := mem_dedupe.1 hs
  obtain step | coverage := List.mem_append.1 step
  · obtain called | called := List.mem_append.1 step
    · obtain ⟨b, hb, rfl⟩ := List.mem_map.1 called
      exact (blockers b hb).2
    · obtain ⟨entry, he, rfl⟩ := List.mem_map.1 called
      exact (known entry he).2
  · split at coverage
    · rw [List.mem_singleton.1 coverage]
      rfl
    · cases coverage

end Rationale

namespace Verdict

theorem versionOf_isEncodable {snapshot : Value} (h : snapshot.isEncodable = true) :
    (versionOf snapshot).isEncodable = true := by
  unfold versionOf
  split
  · rename_i v found
    split
    · exact Value.member_isEncodable h found
    · rfl
  · rfl

theorem scores_isEncodable (s : Scorecard) : s.toValue.isEncodable = true := by
  obtain ⟨tests, security, risk, ops, policy, overall, level⟩ := s
  cases level <;> rfl

theorem ofTexts_isEncodable {ts : List Text} (h : ∀ t ∈ ts, t.isString = true) :
    (Value.ofTexts ts).isEncodable = true := by
  rw [Value.ofTexts, Value.isEncodable_list, List.all_map, List.all_eq_true]
  exact h

/-- The building of a verdict brings no half of a surrogate pair into it. -/
theorem built_isEncodable {run inputs snapshot doc : Value}
    (built : build run inputs snapshot = .ok doc) :
    doc.isEncodable = true ↔
      run.isEncodable = true ∧ inputs.isEncodable = true ∧ snapshot.isEncodable = true := by
  have readable := readable_of_clean (clean_of_built built)
  obtain ⟨admitted, c, rfl⟩ := Composition.of_built built
  constructor
  · intro h
    have part {key : Text} {w : Value} (found : (c.document run).member? key = some w) :=
      Value.member_isEncodable h found
    exact ⟨@part "run" _ rfl, @part "inputs" _ rfl, @part "policy_evaluation" _ rfl⟩
  · rintro ⟨hr, hi, hs⟩
    obtain ⟨-, cleanInputs, cleanSnapshot⟩ := inputIssues_clean.1 admitted
    obtain ⟨signals, given, signalsRead⟩ := (inputs_read cleanInputs).signals
    obtain ⟨f, findings⟩ := findings_of_read signalsRead (snapshot_read cleanSnapshot)
    have proposed := readable.proposed
    rw [c.proposedOf_document run] at proposed
    have action := factoryAction_isEncodable proposed
    have level : (Value.str c.scores.riskLevel.name).isEncodable = true := by
      cases c.scores.riskLevel <;> rfl
    have texts := Rationale.build_encodable given findings hi hs action rfl level c.explained
    have steps := ofTexts_isEncodable texts.steps
    have evidence : (Value.list c.rationale.evidence).isEncodable = true := by
      rw [Value.isEncodable_list, List.all_eq_true]
      exact texts.evidence
    have schema : Contract.verdictSchema.isString = true := rfl
    have number : (Value.float c.confidence).isEncodable = true := rfl
    rw [Composition.document, document]
    simp [Value.isEncodable_object, schema, number, hr, hi, hs, versionOf_isEncodable hs,
      scores_isEncodable, action,
      steps, evidence, texts.summary]

end Verdict

end ReleaseGate
