import Mathlib.Data.List.Forall2
import ReleaseGate.Policy.Admission
import ReleaseGate.Proofs.Contract.Check
import ReleaseGate.Proofs.Policy.Identifiers
import ReleaseGate.Proofs.Verdict.Parts

/-!
Policy documents that meet their contract, read member by member. Such a document is read without a
fault, both for the check of its identifiers and for its evaluation, and both find the same rules in
it.
-/

namespace ReleaseGate

structure Rule.ReadFrom (r : Rule) (d : Value) : Prop where
  id : d.member? "id" = some r.id
  condition : d.member? "when" = some r.condition
  action : d.member? "then" = some (.str r.action.name)
  severity : d.member? "severity" = some (.str r.severity.name)
  reason : d.member? "reason" = some r.reason
  named : r.id.NonBlank
  conditioned : r.condition.NonBlank
  prescribes : r.action ∈ PolicyAction.prescribable
  assigned : r.severity ∈ Severity.assignable

/-- A policy as its document has it, with a default for the learning mode. -/
structure Policy.ReadFrom (p : Policy) (default v : Value) : Prop where
  defaults : ∀ d, v.member? "defaults" = some d → d.fits .object = true
  version : v.member? "version" = some p.version
  rules : ∃ docs, v.member? "rules" = some (.list docs) ∧
    List.Forall₂ (fun d r => Rule.ReadFrom r d) docs p.rules
  learningMode : p.learningMode =
    ((v.member? "defaults").bind fun d => d.member? "learning_mode").getD default

namespace Contract

open Check

theorem rule_clean {used : List Text} {path : Path} {d : Value}
    (clean : rule used path d = []) : ∃ r : Rule, r.ReadFrom d := by
  rw [rule, object_clean] at clean
  obtain ⟨ms, rfl, clean⟩ := clean
  simp only [both_cons_clean, required_text, and_clean, notBlank_clean, oneOf_clean] at clean
  obtain ⟨-, ⟨id, hid, named, -⟩, ⟨condition, hcondition, conditioned⟩, ⟨_, haction, allowed⟩,
    ⟨_, hseverity, assigned⟩, ⟨reason, hreason, -⟩, -⟩ := clean
  obtain ⟨action, prescribable, rfl⟩ := List.mem_map.1 allowed
  obtain ⟨severity, assignable, rfl⟩ := List.mem_map.1 assigned
  exact ⟨⟨.str id, .str condition, action, severity, .str reason⟩, hid, hcondition, haction,
    hseverity, hreason, ⟨id, rfl, named⟩, ⟨condition, rfl, conditioned⟩, prescribable, assignable⟩

theorem rulesFrom_clean {path : Path} {used : List Text} {index : Nat} {docs : List Value}
    (clean : rulesFrom path used index docs = []) :
    ∃ rules : List Rule, List.Forall₂ (fun d r => Rule.ReadFrom r d) docs rules := by
  induction docs generalizing used index with
  | nil => exact ⟨[], .nil⟩
  | cons d ds ih =>
      obtain ⟨first, rest⟩ := List.append_eq_nil_iff.1 clean
      obtain ⟨r, reads⟩ := rule_clean first
      obtain ⟨rs, more⟩ := ih rest
      exact ⟨r :: rs, .cons reads more⟩

/-- A document that passes the policy's contract is read as a policy. -/
theorem policyIssues_clean (default : Value) {v : Value} (clean : policyIssues v = []) :
    ∃ p : Policy, p.ReadFrom default v := by
  unfold policyIssues at clean
  split at clean
  case isFalse => cases clean
  simp only [both_cons_clean, required_text, required_list] at clean
  obtain ⟨-, ⟨version, hversion, -⟩, hdefaults, ⟨docs, hdocs, checked⟩, -⟩ := clean
  obtain ⟨rules, reads⟩ := rulesFrom_clean checked
  exact ⟨⟨.str version, rules, _⟩, fun d hd => (optional_clean.1 hdefaults d hd).1, hversion,
    ⟨docs, hdocs, reads⟩, rfl⟩

end Contract

theorem PolicyAction.ofValue_name (a : PolicyAction) : ofValue (.str a.name) = .ok a := by
  cases a <;> rfl

theorem Severity.ofValue_name (s : Severity) : ofValue (.str s.name) = .ok s := by
  cases s <;> rfl

theorem Value.find_of_member {v w : Value} {key : Text} (h : v.member? key = some w)
    (other : Text) : v.find other = .ok (v.member? other) := by
  cases v with
  | object ms => rfl
  | _ => cases h

namespace Rule.ReadFrom

variable {r : Rule} {d : Value} (h : r.ReadFrom d)
include h

theorem ofValue : Rule.ofValue d = .ok r := by
  simp only [Rule.ofValue, Verdict.need_of_member h.id, Verdict.need_of_member h.condition,
    Verdict.need_of_member h.action, Verdict.need_of_member h.severity,
    Verdict.need_of_member h.reason, PolicyAction.ofValue_name, Severity.ofValue_name, bind,
    Except.bind, pure, Except.pure]

theorem isObject : ∃ ms, d = .object ms := by
  cases d with
  | object ms => exact ⟨ms, rfl⟩
  | _ => exact nomatch h.id

theorem rawText (index : Nat) : Policy.rawText d index = (r.id, r.condition.text) := by
  obtain ⟨id, named, -⟩ := h.named
  obtain ⟨condition, conditioned, -⟩ := h.conditioned
  rw [Policy.rawText, h.id, h.condition, named, conditioned]
  rfl

end Rule.ReadFrom

theorem rules_areObjects {docs : List Value} {rules : List Rule}
    (reads : List.Forall₂ (fun d r => Rule.ReadFrom r d) docs rules) :
    ∀ d ∈ docs, ∃ ms, d = .object ms := by
  induction reads with
  | nil => exact List.forall_mem_nil _
  | cons first _ ih => exact List.forall_mem_cons.2 ⟨first.isObject, ih⟩

theorem rules_conditioned {docs : List Value} {rules : List Rule}
    (reads : List.Forall₂ (fun d r => Rule.ReadFrom r d) docs rules) :
    ∀ r ∈ rules, ∃ s, r.condition = .str s := by
  induction reads with
  | nil => exact List.forall_mem_nil _
  | cons first _ ih =>
      obtain ⟨s, text, -⟩ := first.conditioned
      exact List.forall_mem_cons.2 ⟨⟨s, text⟩, ih⟩

theorem rules_ofValue {docs : List Value} {rules : List Rule}
    (reads : List.Forall₂ (fun d r => Rule.ReadFrom r d) docs rules) :
    docs.mapM Rule.ofValue = .ok rules := by
  induction reads with
  | nil => rfl
  | cons first _ ih =>
      rw [List.mapM_cons, first.ofValue, ih]
      rfl

theorem rules_rawTexts {docs : List Value} {rules : List Rule}
    (reads : List.Forall₂ (fun d r => Rule.ReadFrom r d) docs rules) (start : Nat) :
    (docs.zipIdx start).map (fun p => Policy.rawText p.1 p.2) =
      rules.map fun r => (r.id, r.condition.text) := by
  induction reads generalizing start with
  | nil => rfl
  | cons first _ ih =>
      rw [List.zipIdx_cons, List.map_cons, List.map_cons, ih]
      dsimp only
      rw [first.rawText]

namespace Policy.ReadFrom

variable {p : Policy} {default v : Value} (h : p.ReadFrom default v)
include h

theorem givenLearningMode :
    Policy.givenLearningMode (v.member? "defaults") default = .ok p.learningMode := by
  rw [h.learningMode]
  cases defaults : v.member? "defaults" with
  | none => rfl
  | some d =>
      obtain ⟨ms, rfl⟩ := Check.fits_object.1 (h.defaults d defaults)
      cases ms <;> rfl

theorem ofValue : Policy.ofValue default v = .ok p := by
  obtain ⟨docs, found, reads⟩ := h.rules
  have find := Value.find_of_member h.version
  simp only [Policy.ofValue, find, Verdict.need_of_member h.version, found, Option.getD_some,
    Value.walk, rules_ofValue reads, h.givenLearningMode, bind, Except.bind, pure, Except.pure]

theorem rawConditions :
    Policy.rawConditions v = .ok (written (p.rules.map fun r => (r.id, r.condition.text))) := by
  obtain ⟨docs, found, reads⟩ := h.rules
  have find : v.find "rules" = .ok (some (.list docs)) :=
    (Value.find_of_member h.version "rules").trans (congrArg _ found)
  rw [← rules_rawTexts reads 0]
  exact rawConditions_objects find (rules_areObjects reads)

theorem conditioned : ∀ r ∈ p.rules, ∃ s, r.condition = .str s := by
  obtain ⟨docs, -, reads⟩ := h.rules
  exact rules_conditioned reads

end Policy.ReadFrom

end ReleaseGate
