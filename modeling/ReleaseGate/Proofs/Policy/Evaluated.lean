import ReleaseGate.Proofs.Policy.Meaning

/-!
Evaluations that came about. Their policy meets its contract and has been read, they are what it
decides, and what a verdict embeds of them meets the contract of snapshots. A match that blocks is
the one that decides.
-/

namespace ReleaseGate

structure Match.Proper (m : Match) : Prop where
  id : ∃ s, m.id = .str s
  reason : ∃ s, m.reason = .str s
  prescribes : m.action ∈ PolicyAction.prescribable
  assigned : m.severity ∈ Severity.assignable

namespace Contract

open Check

theorem rule_reason {used : List Text} {path : Path} {d : Value}
    (clean : rule used path d = []) : ∃ s, d.member? "reason" = some (.str s) := by
  rw [rule, object_clean] at clean
  obtain ⟨ms, rfl, clean⟩ := clean
  simp only [both_cons_clean] at clean
  obtain ⟨reason, found, -⟩ := required_text.1 clean.2.2.2.2.2.1
  exact ⟨reason, found⟩

theorem rulesFrom_reasons {path : Path} {used : List Text} {index : Nat} {docs : List Value}
    (clean : rulesFrom path used index docs = []) :
    ∀ d ∈ docs, ∃ s, d.member? "reason" = some (.str s) := by
  induction docs generalizing used index with
  | nil => exact List.forall_mem_nil _
  | cons d ds ih =>
      obtain ⟨first, rest⟩ := List.append_eq_nil_iff.1 clean
      exact List.forall_mem_cons.2 ⟨rule_reason first, ih rest⟩

theorem policyIssues_texts {v : Value} (clean : policyIssues v = []) :
    (∃ s, v.member? "version" = some (.str s) ∧ Text.isBlankText s = false) ∧
      ∀ docs, v.member? "rules" = some (.list docs) →
        ∀ d ∈ docs, ∃ s, d.member? "reason" = some (.str s) := by
  unfold policyIssues at clean
  split at clean
  case isFalse => cases clean
  simp only [both_cons_clean, required_text, required_list] at clean
  obtain ⟨-, ⟨version, named, shown⟩, -, ⟨docs, found, checked⟩, -⟩ := clean
  refine ⟨⟨version, named, notBlank_clean.1 shown⟩, fun others same => ?_⟩
  cases found.symm.trans same
  exact rulesFrom_reasons checked

end Contract

theorem rules_proper {docs : List Value} {rules : List Rule}
    (reads : List.Forall₂ (fun d r => Rule.ReadFrom r d) docs rules)
    (reasons : ∀ d ∈ docs, ∃ s, d.member? "reason" = some (.str s)) :
    ∀ r ∈ rules, r.toMatch.Proper := by
  induction reads with
  | nil => exact List.forall_mem_nil _
  | cons first _ ih =>
      obtain ⟨⟨reason, found⟩, others⟩ := List.forall_mem_cons.1 reasons
      obtain ⟨id, named, -⟩ := first.named
      have explained := Option.some.inj (first.reason.symm.trans found)
      exact List.forall_mem_cons.2
        ⟨⟨⟨id, named⟩, ⟨reason, explained⟩, first.prescribes, first.assigned⟩, ih others⟩

namespace Policy

/-- An evaluation of a policy document, with the policy that was read. -/
structure Evaluated (default policy signals : Value) (learningMode : Option Value) (p : Policy)
    (e : Evaluation) : Prop where
  clean : Contract.policyIssues policy = []
  read : p.ReadFrom default policy
  decided : p.Decided (SignalVector.ofMembers signals) (learningMode.getD p.learningMode) e

variable {default policy signals : Value} {learningMode : Option Value} {p : Policy}
  {e : Evaluation}

theorem vector_of_ok {x : SignalVector}
    (h : (SignalVector.ofValue signals).mapError Error.incompleteSignals = .ok x) :
    x = SignalVector.ofMembers signals := by
  unfold SignalVector.ofValue at h
  split at h
  · exact (Except.ok.inj h).symm
  · cases h

theorem clean_of_accept (h : accept default policy = .ok p) :
    Contract.policyIssues policy = [] ∧ ∃ members, policy = .object members := by
  cases policy with
  | object members =>
      simp only [accept, ofObject] at h
      split at h
      · rename_i clean
        exact ⟨clean, members, rfl⟩
      · cases h
  | null | bool _ | int _ | float _ | str _ | list _ => cases h

/-- An evaluation that returns was made of a policy in order and a complete vector. -/
theorem evaluated_of_ok (h : evaluateDocument default policy signals learningMode = .ok e) :
    ∃ p, Evaluated default policy signals learningMode p e := by
  obtain ⟨x, vector, h⟩ := bind_eq_ok h
  obtain ⟨p, accepted, evaluates⟩ := bind_eq_ok h
  obtain ⟨clean, members, rfl⟩ := clean_of_accept accepted
  obtain ⟨q, reads⟩ := Contract.policyIssues_clean default clean
  have meant := evaluate_meant reads.conditioned x learningMode
  rw [accept_of_read reads clean] at accepted
  obtain ⟨_, known, same⟩ := bind_eq_ok accepted
  cases same
  rw [known] at meant
  have ended : p.Meant x (learningMode.getD p.learningMode) (.ok e) := evaluates ▸ meant
  cases ended with
  | decided _ _ decided => exact ⟨p, clean, reads, vector_of_ok vector ▸ decided⟩

theorem mem_examined {x : SignalVector} {rules : List Rule} {r : Rule} (h : r ∈ examined x rules) :
    r ∈ rules := by
  obtain passed | last := List.mem_append.1 h
  · exact (List.takeWhile_prefix _).mem passed
  · exact List.mem_of_find?_eq_some (Option.mem_toList.1 last)

/-- Every match is told with a text for its id and its reason. -/
theorem Evaluated.matched_proper (h : Evaluated default policy signals learningMode p e) :
    ∀ m ∈ e.matched, m.Proper := by
  intro m hm
  rw [h.decided.matched] at hm
  obtain ⟨r, hr, rfl⟩ := List.mem_map.1 hm
  obtain ⟨docs, found, reads⟩ := h.read.rules
  exact rules_proper reads ((Contract.policyIssues_texts h.clean).2 docs found) r
    (mem_examined (List.mem_filter.1 hr).1)

theorem Evaluated.version_shown (h : Evaluated default policy signals learningMode p e) :
    ∃ s, e.version = .str s ∧ Text.isBlankText s = false := by
  obtain ⟨s, found, shown⟩ := (Contract.policyIssues_texts h.clean).1
  exact ⟨s, h.decided.version.trans (Option.some.inj (h.read.version.symm.trans found)), shown⟩

/-- The match that decides is the last one if any of them blocks. -/
theorem Decided.of_block {x : SignalVector} {mode : Value} (h : p.Decided x mode e) {m : Match}
    (hm : m ∈ e.matched) (block : m.severity = .block) :
    e.severity = .block ∧ e.action = m.action := by
  obtain ⟨before, w, after, split, earlier, later, severity, action⟩ :=
    h.earliest (List.ne_nil_of_mem hm)
  have parts := hm
  rw [split] at parts
  obtain ahead | rfl | behind := List.mem_append.1 parts |>.imp_right List.mem_cons.1
  · exact absurd (earlier m ahead) (by simp [block, Severity.rank])
  · exact ⟨severity.trans block, action⟩
  · have gravest : w.severity = .block := by
      have := later m behind
      cases h : w.severity <;> simp [h, block, Severity.rank] at this ⊢
    have passed : w ∈ e.matched.dropLast := by
      rw [split, List.dropLast_append_of_ne_nil (List.cons_ne_nil _ _),
        List.dropLast_cons_of_ne_nil (List.ne_nil_of_mem behind)]
      simp
    exact absurd gravest (h.blocks w passed)

end Policy

namespace Contract

open Check

theorem matchedRule_clean {m : Match} (proper : m.Proper) (path : Path) :
    matchedRule path (.object [("rule_id", m.id), ("severity", .str m.severity.name),
      ("then", .str m.action.name), ("reason", m.reason)]) = [] := by
  obtain ⟨id, named⟩ := proper.id
  obtain ⟨reason, explained⟩ := proper.reason
  refine object_clean.2 ⟨_, rfl, ?_⟩
  simp only [both_cons_clean, both_nil_clean, and_true]
  refine ⟨onlyMembers_clean.2 fun _ hk => hk, required_text.2 ⟨id, congrArg some named, rfl⟩,
    required_text.2 ⟨_, rfl, oneOf_clean.2 (List.mem_map_of_mem proper.assigned)⟩,
    required_text.2 ⟨_, rfl, oneOf_clean.2 (List.mem_map_of_mem proper.prescribes)⟩,
    required_text.2 ⟨reason, congrArg some explained, rfl⟩⟩

theorem snapshot_clean {e : Evaluation} (proper : ∀ m ∈ e.matched, m.Proper) {version : Text}
    (named : e.version = .str version) (path : Path) : snapshot path e.snapshot = [] := by
  have actions : ∀ a : PolicyAction, a.name ∈ policyActions := by
    intro a
    cases a <;> decide
  have asked : ∀ a : FactoryAction, a.name ∈ snapshotActions := by
    intro a
    cases a <;> decide
  have grades : ∀ s : Severity, s.name ∈ severities := by
    intro s
    cases s <;> decide
  refine object_clean.2 ⟨_, rfl, ?_⟩
  simp only [both_cons_clean, both_nil_clean, and_true, optional_clean]
  refine ⟨onlyMembers_clean.2 fun _ hk => hk, required_list.2 ⟨_, rfl, each_clean_of ?_⟩,
    required_text.2 ⟨_, rfl, oneOf_clean.2 (actions _)⟩,
    required_text.2 ⟨_, rfl, oneOf_clean.2 (asked _)⟩, ?_, ?_⟩
  · intro v hv
    obtain ⟨m, hm, rfl⟩ := List.mem_map.1 hv
    exact matchedRule_clean (proper m hm)
  · rintro v found
    cases (congrArg some named).symm.trans found
    exact ⟨rfl, rfl⟩
  · rintro _ ⟨⟩
    exact ⟨rfl, oneOf_clean.2 (grades _)⟩

end Contract

end ReleaseGate
