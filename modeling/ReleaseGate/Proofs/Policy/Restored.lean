import ReleaseGate.Proofs.Contract.Order
import ReleaseGate.Proofs.Json.Alike
import ReleaseGate.Proofs.Policy.Evaluated

/-!
Policies as they are written. A policy is read back from its document; a document that meets its
contract is written again as it was, up to the order of members and with the learning mode that was
filled in, and no order of its members changes the policy that is read from it.
-/

namespace ReleaseGate

open Json (sorted alike_refl alike_of_partners)

theorem Rule.ofValue_toValue (r : Rule) : Rule.ofValue r.toValue = .ok r := by
  show (do
    let action ← PolicyAction.ofValue (.str r.action.name)
    let severity ← Severity.ofValue (.str r.severity.name)
    return (⟨r.id, r.condition, action, severity, r.reason⟩ : Rule)) = _
  rw [PolicyAction.ofValue_name, Severity.ofValue_name]
  rfl

/-- A policy is read back from the document it is written as. -/
theorem Policy.ofValue_toValue (default : Value) (p : Policy) :
    Policy.ofValue default p.toValue = .ok p := by
  show (do
    let rules ← (p.rules.map Rule.toValue).mapM Rule.ofValue
    return (⟨p.version, rules, p.learningMode⟩ : Policy)) = _
  rw [mapM_restores Rule.ofValue_toValue]
  rfl

theorem partner_of_member {d v : Value} {key : Text} (hd : d.WellFormed)
    (found : d.member? key = some v) : ∃ w, d.member? key = some w ∧ v.Alike w :=
  ⟨v, found, alike_refl (Value.member_wellFormed hd found)⟩

namespace Contract

open Check

theorem rule_alike {used : List Text} {path : Path} {d : Value} {r : Rule}
    (clean : rule used path d = []) (hd : d.WellFormed) (reads : r.ReadFrom d) :
    r.toValue.Alike d := by
  rw [rule, object_clean] at clean
  obtain ⟨ns, rfl, clean⟩ := clean
  rw [both_cons_clean, onlyMembers_clean] at clean
  have distinct : ruleMembers.Nodup := by decide
  refine alike_of_partners distinct (Value.wellFormed_object.1 hd).1 clean.1 ?_
  simp only [List.forall_mem_cons]
  exact ⟨partner_of_member hd reads.id, partner_of_member hd reads.condition,
    partner_of_member hd reads.action, partner_of_member hd reads.severity,
    partner_of_member hd reads.reason, List.forall_mem_nil _⟩

theorem rules_wellFormed {docs : List Value} {rules : List Rule} (hd : ∀ d ∈ docs, d.WellFormed)
    (reads : List.Forall₂ (fun d r => Rule.ReadFrom r d) docs rules) :
    ∀ r ∈ rules, r.toValue.WellFormed := by
  induction reads with
  | nil => exact List.forall_mem_nil _
  | cons first _ ih =>
      obtain ⟨own, rest⟩ := List.forall_mem_cons.1 hd
      have distinct : ruleMembers.Nodup := by decide
      refine List.forall_mem_cons.2 ⟨Value.wellFormed_object.2 ⟨distinct, ?_⟩, ih rest⟩
      simp only [List.forall_mem_cons]
      exact ⟨Value.member_wellFormed own first.id, Value.member_wellFormed own first.condition,
        trivial, trivial, Value.member_wellFormed own first.reason, List.forall_mem_nil _⟩

theorem rulesFrom_alike {path : Path} {used : List Text} {index : Nat} {docs : List Value}
    {rules : List Rule} (clean : rulesFrom path used index docs = [])
    (hd : ∀ d ∈ docs, d.WellFormed)
    (reads : List.Forall₂ (fun d r => Rule.ReadFrom r d) docs rules) :
    List.Forall₂ Value.Alike (rules.map Rule.toValue) docs := by
  induction reads generalizing used index with
  | nil => exact .nil
  | cons first _ ih =>
      obtain ⟨head, tail⟩ := List.append_eq_nil_iff.1 clean
      obtain ⟨own, rest⟩ := List.forall_mem_cons.1 hd
      exact .cons (rule_alike head own first) (ih tail rest)

theorem ruleIds_of_read {r : Rule} {d : Value} (reads : r.ReadFrom d) :
    ruleIds d = [r.id.text] := by
  obtain ⟨s, named, full⟩ := reads.named
  have nonempty : s ≠ "" := by
    rintro rfl
    cases full
  have found : d.member? "id" = some (.str s) := named ▸ reads.id
  simp only [ruleIds, document_member, found, named]
  show (if (true && s != "") = true then [s] else []) = [s]
  simp [nonempty]

theorem freshId_clean {used : List Text} {path : Path} {s : Text} :
    (freshId used : Check Value) path (.str s) = [] ↔ s ∉ used := by
  show (if s ∈ used then _ else _) = [] ↔ _
  by_cases known : s ∈ used <;> simp [known]

theorem rule_fresh {used : List Text} {path : Path} {d : Value} {r : Rule}
    (clean : rule used path d = []) (reads : r.ReadFrom d) : r.id.text ∉ used := by
  rw [rule, object_clean] at clean
  obtain ⟨ns, rfl, clean⟩ := clean
  simp only [both_cons_clean, required_text, and_clean, freshId_clean] at clean
  obtain ⟨-, ⟨id, found, -, fresh⟩, -⟩ := clean
  rw [Option.some.inj (reads.id.symm.trans found)]
  exact fresh

/-- Rules whose check finds nothing have ids that are new and pairwise distinct. -/
theorem rulesFrom_ids {path : Path} {used : List Text} {index : Nat} {docs : List Value}
    {rules : List Rule} (clean : rulesFrom path used index docs = [])
    (reads : List.Forall₂ (fun d r => Rule.ReadFrom r d) docs rules) :
    (∀ r ∈ rules, r.id.text ∉ used) ∧ (rules.map Rule.id).Nodup := by
  induction reads generalizing used index with
  | nil => exact ⟨List.forall_mem_nil _, List.nodup_nil⟩
  | @cons d r docs rules first _ ih =>
      obtain ⟨head, tail⟩ := List.append_eq_nil_iff.1 clean
      rw [ruleIds_of_read first] at tail
      obtain ⟨later, distinct⟩ := ih tail
      refine ⟨List.forall_mem_cons.2 ⟨rule_fresh head first, fun q hq there => ?_⟩,
        List.nodup_cons.2 ⟨fun there => ?_, distinct⟩⟩
      · exact later q hq (List.mem_append_left _ there)
      · obtain ⟨q, hq, same⟩ := List.mem_map.1 there
        exact later q hq (List.mem_append_right _ (by simp [same]))

theorem required_congr {key : Text} {kind : Kind} {check : Check Value} {path : Path}
    {doc other : Value} (h : doc.member? key = other.member? key) :
    required key kind check path doc = required key kind check path other := by
  simp only [required, member, document_member, h]

theorem defaults_clean {path : Path} {es : List (Text × Value)} :
    defaults path (Value.object es) = [] ↔ (∀ k ∈ Value.names es, k ∈ [↑"learning_mode"]) ∧
      ∀ m, es.lookup ↑"learning_mode" = some m → ∃ b, m = .bool b := by
  rw [defaults, both_cons_clean, both_cons_clean, onlyMembers_clean, optional_clean]
  simp only [both_nil_clean, anything_clean, and_true, fits_flag]
  rfl

theorem policyIssues_object {v : Value} :
    policyIssues v = [] ↔ ∃ ms, v = .object ms ∧ (∀ k ∈ Value.names ms, k ∈ policyMembers) ∧
      required "version" .text notBlank [] v = [] ∧
      Check.optional "defaults" .object defaults [] v = [] ∧
      required "rules" .list rules [] v = [] := by
  simp only [policyIssues, document_fits]
  cases v with
  | object ms =>
      have fit : (Value.object ms).fits .object = true := rfl
      simp only [fit, if_true, both_cons_clean, both_nil_clean, onlyMembers_clean, and_true,
        Value.object.injEq, exists_eq_left']
  | _ => simp [Value.fits]

theorem rulesFrom_of_clean {d : Value} {docs : List Value} (clean : policyIssues d = [])
    (found : d.member? "rules" = some (.list docs)) :
    rulesFrom (Path.member [] "rules") [] 0 docs = [] := by
  obtain ⟨ms, rfl, -, -, -, rules⟩ := policyIssues_object.1 clean
  obtain ⟨others, same, checked⟩ := required_list.1 rules
  cases found.symm.trans same
  exact checked

end Contract

namespace Value

theorem eq_singleton {k : Text} {v : Value} {ms : List (Text × Value)}
    (distinct : (names ms).Nodup) (known : ∀ j ∈ names ms, j ∈ [k]) (found : ms.lookup k = some v) :
    ms = [(k, v)] := by
  have size : (names ms).length ≤ 1 := (distinct.subperm known).length_le
  cases ms with
  | nil => cases found
  | cons m ms =>
      cases ms with
      | nil =>
          have name : m.1 = k := List.mem_singleton.1 (known m.1 List.mem_cons_self)
          rw [lookup_cons_if, if_pos name.symm] at found
          rw [← name, ← Option.some.inj found]
      | cons n ms => exact absurd size (by simp [names])

theorem eq_nil_of_names {k : Text} {ms : List (Text × Value)}
    (known : ∀ j ∈ names ms, j ∈ [k]) (missing : ms.lookup k = none) : ms = [] := by
  cases ms with
  | nil => rfl
  | cons m ms =>
      have name : m.1 = k := List.mem_singleton.1 (known m.1 List.mem_cons_self)
      exact absurd (name ▸ List.mem_cons_self) (lookup_eq_none_iff.1 missing)

end Value

namespace Policy

/-- A policy document with a learning mode among its defaults: its own, or else the given one. -/
def withLearningMode (default d : Value) : Value :=
  let defaults := (d.member? "defaults").getD (.object [])
  if (defaults.member? "learning_mode").isSome then d
  else
    .object (putMember "defaults"
      (.object (putMember "learning_mode" default defaults.members)) d.members)

/-- The members of a policy document in which the learning mode of its policy stands. -/
structure Filled (p : Policy) (d : Value) (ns : List (Text × Value)) : Prop where
  wellFormed : (Value.object ns).WellFormed
  known : ∀ k ∈ Value.names ns, k ∈ Contract.policyMembers
  version : (Value.object ns).member? "version" = d.member? "version"
  rules : (Value.object ns).member? "rules" = d.member? "rules"
  defaults : (Value.object ns).member? "defaults" =
    some (.object [("learning_mode", p.learningMode)])

theorem filled_put {p : Policy} {ms : List (Text × Value)} (hm : (Value.object ms).WellFormed)
    (known : ∀ k ∈ Value.names ms, k ∈ Contract.policyMembers) (mode : p.learningMode.WellFormed) :
    p.Filled (.object ms)
      (putMember "defaults" (.object [("learning_mode", p.learningMode)]) ms) where
  wellFormed := Value.putMember_wellFormed
    (Value.wellFormed_object.2 ⟨by simp, List.forall_mem_singleton.2 mode⟩) hm
  known k hk := by
    obtain rfl | there := Value.mem_names_putMember.1 hk
    · decide
    · exact known k there
  version := (Value.lookup_putMember ..).trans (if_neg (by decide))
  rules := (Value.lookup_putMember ..).trans (if_neg (by decide))
  defaults := (Value.lookup_putMember ..).trans (if_pos rfl)

open Contract Check

section

variable {L : Bool} {d : Value} {p : Policy} (clean : policyIssues d = []) (hd : d.WellFormed)
  (reads : p.ReadFrom (.bool L) d)
include clean hd reads

/-- Filling in the learning mode adds the one default and keeps every other member. -/
theorem withLearningMode_filled :
    (∃ b, p.learningMode = .bool b) ∧
      ∃ ns, withLearningMode (.bool L) d = .object ns ∧ p.Filled d ns := by
  obtain ⟨ms, rfl, known, -, defaultsClean, -⟩ := policyIssues_object.1 clean
  obtain ⟨distinct, members⟩ := Value.wellFormed_object.1 hd
  have learningMode := reads.learningMode
  unfold withLearningMode
  cases given : (Value.object ms).member? "defaults" with
  | none =>
      rw [given] at learningMode
      have filled := filled_put (p := p) hd known (learningMode ▸ trivial)
      rw [learningMode] at filled ⊢
      exact ⟨⟨L, rfl⟩, _, rfl, filled⟩
  | some e =>
      obtain ⟨fit, inner⟩ := optional_clean.1 defaultsClean e given
      obtain ⟨es, rfl⟩ := fits_object.1 fit
      obtain ⟨only, flag⟩ := defaults_clean.1 inner
      rw [given] at learningMode
      cases mode : es.lookup ↑"learning_mode" with
      | none =>
          obtain rfl := Value.eq_nil_of_names only mode
          have filled := filled_put (p := p) hd known (learningMode ▸ trivial)
          rw [learningMode] at filled ⊢
          exact ⟨⟨L, rfl⟩, _, rfl, filled⟩
      | some m =>
          have own : (Value.object es).member? "learning_mode" = some m := mode
          have place := (Value.lookup_eq_some_iff distinct).1 given
          have single := Value.eq_singleton
            (Value.wellFormed_object.1 (members _ place)).1 only mode
          obtain rfl : p.learningMode = m := by
            rw [learningMode, Option.bind_some, own, Option.getD_some]
          refine ⟨flag _ mode, ms, ?_, hd, known, rfl, rfl, single ▸ given⟩
          simp only [Option.getD_some, own, Option.isSome_some, if_true]

/-- What is written of a policy is its document, with the learning mode filled in. -/
theorem toValue_alike : p.toValue.Alike (withLearningMode (.bool L) d) := by
  obtain ⟨-, ns, same, filled⟩ := withLearningMode_filled clean hd reads
  obtain ⟨docs, found, each⟩ := reads.rules
  have items := Value.wellFormed_list.1 (Value.member_wellFormed hd found)
  have rules := rulesFrom_alike (rulesFrom_of_clean clean found) items each
  have defaults := Value.member_wellFormed filled.wellFormed filled.defaults
  have version := alike_refl (Value.member_wellFormed hd reads.version)
  have distinct : policyMembers.Nodup := by decide
  rw [same]
  refine alike_of_partners distinct (Value.wellFormed_object.1 filled.wellFormed).1 filled.known ?_
  simp only [List.forall_mem_cons]
  exact ⟨⟨_, filled.version.trans reads.version, version⟩,
    ⟨_, filled.defaults, alike_refl defaults⟩,
    ⟨_, filled.rules.trans found, Value.alike_list.2 rules⟩, List.forall_mem_nil _⟩

/-- A policy with its default filled in passes the contract again. -/
theorem withLearningMode_clean : policyIssues (withLearningMode (.bool L) d) = [] := by
  obtain ⟨⟨b, mode⟩, ns, same, filled⟩ := withLearningMode_filled clean hd reads
  obtain ⟨ms, rfl, -, version, -, rules⟩ := policyIssues_object.1 clean
  rw [same]
  refine policyIssues_object.2 ⟨ns, rfl, filled.known,
    (required_congr filled.version).trans version,
    optional_clean.2 fun v hv => ?_, (required_congr filled.rules).trans rules⟩
  obtain rfl := Option.some.inj (filled.defaults.symm.trans hv)
  refine ⟨rfl, defaults_clean.2 ⟨by simp, fun m hm => ?_⟩⟩
  exact ⟨b, (Option.some.inj hm).symm.trans mode⟩

theorem toValue_wellFormed : p.toValue.WellFormed := by
  obtain ⟨-, ns, -, filled⟩ := withLearningMode_filled clean hd reads
  obtain ⟨docs, found, each⟩ := reads.rules
  have items := Value.wellFormed_list.1 (Value.member_wellFormed hd found)
  have defaults := Value.member_wellFormed filled.wellFormed filled.defaults
  have rules := rules_wellFormed items each
  have distinct : policyMembers.Nodup := by decide
  refine Value.wellFormed_object.2 ⟨distinct, ?_⟩
  simp only [List.forall_mem_cons]
  exact ⟨Value.member_wellFormed hd reads.version, defaults,
    Value.wellFormed_list.2 (List.forall_mem_map.2 rules), List.forall_mem_nil _⟩

/-- What is written of a policy meets the contract again. -/
theorem toValue_clean : policyIssues p.toValue = [] := by
  have own := toValue_wellFormed clean hd reads
  obtain ⟨-, ns, place, filled⟩ := withLearningMode_filled clean hd reads
  have alike := toValue_alike clean hd reads
  have meets := withLearningMode_clean clean hd reads
  rw [place] at alike meets
  have same := (Json.alike_iff_sorted own filled.wellFormed).1 alike
  rwa [← policyIssues_sorted own, same, policyIssues_sorted filled.wellFormed]

/-- What is written of a policy is read as that policy. -/
theorem toValue_reads : p.ReadFrom (.bool L) p.toValue := by
  obtain ⟨q, own⟩ := policyIssues_clean (.bool L) (toValue_clean clean hd reads)
  have again := own.ofValue
  rw [ofValue_toValue] at again
  exact Except.ok.inj again ▸ own

end

end Policy

theorem member?_sorted_str {d : Value} {key s : Text} (hd : d.WellFormed)
    (found : d.member? key = some (.str s)) : (sorted d).member? key = some (.str s) := by
  rw [Value.member?_sorted hd, found]
  rfl

theorem Rule.ReadFrom.sorted {r : Rule} {d : Value} (reads : r.ReadFrom d) (hd : d.WellFormed)
    (explained : ∃ s, r.reason = .str s) : r.ReadFrom (Json.sorted d) := by
  obtain ⟨id, condition, action, severity, reason⟩ := r
  obtain ⟨reason, rfl⟩ := explained
  obtain ⟨id, rfl, full⟩ := reads.named
  obtain ⟨condition, rfl, given⟩ := reads.conditioned
  exact ⟨member?_sorted_str hd reads.id, member?_sorted_str hd reads.condition,
    member?_sorted_str hd reads.action, member?_sorted_str hd reads.severity,
    member?_sorted_str hd reads.reason, reads.named, reads.conditioned, reads.prescribes,
    reads.assigned⟩

theorem rules_sorted {docs : List Value} {rules : List Rule} (hd : ∀ d ∈ docs, d.WellFormed)
    (reasons : ∀ d ∈ docs, ∃ s, d.member? "reason" = some (.str s))
    (reads : List.Forall₂ (fun d r => Rule.ReadFrom r d) docs rules) :
    List.Forall₂ (fun d r => Rule.ReadFrom r d) (docs.map sorted) rules := by
  induction reads with
  | nil => exact .nil
  | cons first _ ih =>
      obtain ⟨own, rest⟩ := List.forall_mem_cons.1 hd
      obtain ⟨⟨s, reason⟩, others⟩ := List.forall_mem_cons.1 reasons
      have explained := Option.some.inj (first.reason.symm.trans reason)
      exact .cons (first.sorted own ⟨s, explained⟩) (ih rest others)

/-- A document is read as the same policy in any order of members. -/
theorem Policy.ReadFrom.sorted {p : Policy} {L : Bool} {d : Value} (reads : p.ReadFrom (.bool L) d)
    (clean : Contract.policyIssues d = []) (hd : d.WellFormed) :
    p.ReadFrom (.bool L) (Json.sorted d) := by
  obtain ⟨⟨version, named, -⟩, reasons⟩ := Contract.policyIssues_texts clean
  obtain ⟨docs, found, each⟩ := reads.rules
  have items := Value.wellFormed_list.1 (Value.member_wellFormed hd found)
  refine ⟨fun e he => ?_, ?_, ⟨docs.map Json.sorted, ?_, ?_⟩, ?_⟩
  · rw [Value.member?_sorted hd] at he
    obtain ⟨f, given, rfl⟩ := Option.map_eq_some_iff.1 he
    rw [Value.fits_sorted]
    exact reads.defaults f given
  · rw [Option.some.inj (reads.version.symm.trans named)]
    exact member?_sorted_str hd named
  · rw [Value.member?_sorted hd, found, Option.map_some, Json.sorted, Json.sortedItems_eq]
  · exact rules_sorted items (reasons docs found) each
  · obtain ⟨⟨b, mode⟩, -⟩ := Policy.withLearningMode_filled clean hd reads
    have learningMode := reads.learningMode
    rw [mode] at learningMode ⊢
    rw [Value.member?_sorted hd]
    cases given : d.member? "defaults" with
    | none => rwa [given] at learningMode
    | some e =>
        rw [given, Option.bind_some] at learningMode
        rw [Option.map_some, Option.bind_some,
          Value.member?_sorted (Value.member_wellFormed hd given)]
        cases own : e.member? "learning_mode" with
        | none => rwa [own] at learningMode
        | some m =>
            rw [own] at learningMode
            obtain rfl : .bool b = m := learningMode
            rfl

/-- No order of its members changes whether a document meets the contract and what is read from it.
-/
theorem Policy.read_alike {p : Policy} {L : Bool} {d v : Value} (reads : p.ReadFrom (.bool L) d)
    (clean : Contract.policyIssues d = []) (hd : d.WellFormed) (hv : v.WellFormed)
    (alike : v.Alike d) : Contract.policyIssues v = [] ∧ p.ReadFrom (.bool L) v := by
  have same := (Json.alike_iff_sorted hv hd).1 alike
  have meets : Contract.policyIssues v = [] := by
    rwa [← Contract.policyIssues_sorted hv, same, Contract.policyIssues_sorted hd]
  obtain ⟨q, own⟩ := Contract.policyIssues_clean (.bool L) meets
  have ofSorted := (own.sorted meets hv).ofValue
  rw [same, (reads.sorted clean hd).ofValue] at ofSorted
  exact ⟨meets, Except.ok.inj ofSorted ▸ own⟩

end ReleaseGate
