import ReleaseGate.Contract.Plan
import ReleaseGate.Contract.Policy
import ReleaseGate.Proofs.Contract.Check
import ReleaseGate.Proofs.Json.Order

/-!
Contracts and the order of members. An audit record is written with its members sorted, and a check
that finds nothing wrong with a document finds nothing wrong with the sorted one, and the other way
round.
-/

namespace ReleaseGate

open Json (sorted)

namespace Value

theorem fits_sorted (kind : Kind) (v : Value) : (sorted v).fits kind = v.fits kind := by
  cases v <;> cases kind <;> rfl

theorem text_sorted (v : Value) : (sorted v).text = v.text := by
  cases v <;> rfl

theorem hashable_sorted (v : Value) : (sorted v).hashable = v.hashable := by
  cases v <;> rfl

theorem items_sorted (v : Value) : (sorted v).items = v.items.map sorted := by
  cases v with
  | list vs => exact Json.sortedItems_eq vs
  | null | bool _ | int _ | float _ | str _ | object _ => rfl

theorem member?_sorted {v : Value} (hv : v.WellFormed) (key : Text) :
    (sorted v).member? key = (v.member? key).map sorted := by
  cases v with
  | object ms => exact Json.lookup_sortedMembers (wellFormed_object.1 hv).1 key
  | null | bool _ | int _ | float _ | str _ | list _ => rfl

theorem sorted_eq_str {v : Value} {s : Text} : sorted v = .str s ↔ v = .str s := by
  cases v <;> simp [sorted]

theorem notAfter?_sorted_left (v w : Value) : (sorted v).notAfter? w = v.notAfter? w := by
  cases v <;> cases w <;> rfl

theorem notAfter?_sorted_right (v w : Value) : v.notAfter? (sorted w) = v.notAfter? w := by
  cases v <;> cases w <;> rfl

theorem member_wellFormed {v w : Value} {key : Text} (hv : v.WellFormed)
    (h : v.member? key = some w) : w.WellFormed := by
  cases v with
  | object ms =>
      obtain ⟨distinct, members⟩ := wellFormed_object.1 hv
      exact members (key, w) ((lookup_eq_some_iff distinct).1 h)
  | null | bool _ | int _ | float _ | str _ | list _ => cases h

theorem items_wellFormed {v : Value} (hv : v.WellFormed) : ∀ w ∈ v.items, w.WellFormed := by
  cases v with
  | list vs => exact wellFormed_list.1 hv
  | null | bool _ | int _ | float _ | str _ | object _ => exact List.forall_mem_nil _

end Value

namespace Check

/-- A check that finds nothing in a sorted document exactly where it finds nothing in the document.
-/
def Unordered (c : Check Value) : Prop :=
  ∀ path v, v.WellFormed → (c path (sorted v) = [] ↔ c path v = [])

namespace Unordered

theorem of_eq {c : Check Value} (h : ∀ path v, c path (sorted v) = c path v) : Unordered c :=
  fun path v _ => by rw [h path v]

theorem anything : Unordered anything := of_eq fun _ _ => rfl

/-- A check that sees nothing but the text of a document. -/
theorem ofText {c : Check Value} (h : ∀ path v, c path (.str v.text) = c path v) : Unordered c :=
  of_eq fun path v => by rw [← h path (sorted v), Value.text_sorted, h path v]

theorem between (low high : Nat) : Unordered (between low high) := by
  intro path v _
  rw [between_clean, between_clean, Value.notAfter?_sorted_left, Value.notAfter?_sorted_right]

theorem both {cs : List (Check Value)} (h : ∀ c ∈ cs, Unordered c) : Unordered (both cs) := by
  intro path v hv
  simp only [Check.both, List.flatMap_eq_nil_iff]
  exact forall₂_congr fun c hc => h c hc path v hv

theorem and {c d : Check Value} (hc : Unordered c) (hd : Unordered d) : Unordered (c.and d) := by
  intro path v hv
  rw [and_clean, and_clean, hc path v hv, hd path v hv]

theorem required {c : Check Value} (h : Unordered c) (key : Text) (kind : Kind) :
    Unordered (required key kind c) := by
  intro path v hv
  rw [required_clean, required_clean, Value.member?_sorted hv]
  simp only [Option.map_eq_some_iff]
  constructor
  · rintro ⟨_, ⟨w, found, rfl⟩, fit, clean⟩
    exact ⟨w, found, (Value.fits_sorted kind w).symm.trans fit,
      (h _ w (Value.member_wellFormed hv found)).1 clean⟩
  · rintro ⟨w, found, fit, clean⟩
    exact ⟨sorted w, ⟨w, found, rfl⟩, (Value.fits_sorted kind w).trans fit,
      (h _ w (Value.member_wellFormed hv found)).2 clean⟩

theorem optional {c : Check Value} (h : Unordered c) (key : Text) (kind : Kind) :
    Unordered (optional key kind c) := by
  intro path v hv
  rw [optional_clean, optional_clean, Value.member?_sorted hv]
  simp only [Option.map_eq_some_iff]
  constructor
  · intro clean w found
    have cleanSorted := clean (sorted w) ⟨w, found, rfl⟩
    exact ⟨(Value.fits_sorted kind w).symm.trans cleanSorted.1,
      (h _ w (Value.member_wellFormed hv found)).1 cleanSorted.2⟩
  · rintro clean _ ⟨w, found, rfl⟩
    exact ⟨(Value.fits_sorted kind w).trans (clean w found).1,
      (h _ w (Value.member_wellFormed hv found)).2 (clean w found).2⟩

theorem each {c : Check Value} (h : Unordered c) : Unordered (each c) := by
  intro path v hv
  have items : Document.items (sorted v) = (Document.items v).map sorted := Value.items_sorted v
  have wellFormed : ∀ w ∈ Document.items v, w.WellFormed := Value.items_wellFormed hv
  simp only [Check.each, items, List.flatMap_eq_nil_iff, List.zipIdx_map, List.forall_mem_map]
  refine forall₂_congr fun p hp => ?_
  exact h _ p.1 (wellFormed p.1 (List.fst_mem_of_mem_zipIdx hp))

theorem onlyMembers (allowed : List Text) : Unordered (onlyMembers allowed) := by
  intro path v _
  cases v with
  | object ms =>
      rw [sorted, onlyMembers_clean, onlyMembers_clean]
      exact forall_congr' fun k => imp_congr_left Json.mem_names_sortedMembers
  | null | bool _ | int _ | float _ | str _ | list _ => rfl

theorem object {c : Check Value} (h : Unordered c) : Unordered (object c) := by
  intro path v hv
  simp only [Check.object, document_fits, Value.fits_sorted]
  split
  · exact h path v hv
  · rfl

end Unordered

end Check

namespace Contract

open Check

theorem transition_unordered : Unordered transition := by
  have notBlank : Unordered notBlank := .ofText fun _ _ => rfl
  have status : Unordered (oneOf planStatuses) := .ofText fun _ _ => rfl
  refine .object (.both ?_)
  simp only [List.forall_mem_cons]
  exact ⟨.onlyMembers _, status.required _ _, status.required _ _, notBlank.required _ _,
    notBlank.required _ _, List.forall_mem_nil _⟩

theorem lastTarget?_sorted {v : Value} (hv : v.WellFormed) :
    lastTarget? (sorted v) = (lastTarget? v).map sorted := by
  unfold lastTarget?
  rw [Value.member?_sorted hv]
  have items : (((v.member? "status_transitions").map sorted).getD .null).items =
      ((v.member? "status_transitions").getD .null).items.map sorted := by
    cases v.member? "status_transitions" with
    | none => rfl
    | some w => exact Value.items_sorted w
  have wellFormed : ∀ w ∈ ((v.member? "status_transitions").getD .null).items, w.WellFormed := by
    cases found : v.member? "status_transitions" with
    | none => exact List.forall_mem_nil _
    | some w => exact Value.items_wellFormed (Value.member_wellFormed hv found)
  rw [items, List.getLast?_map]
  cases last : ((v.member? "status_transitions").getD .null).items.getLast? with
  | none => rfl
  | some w =>
      have own := wellFormed w (List.mem_of_getLast? last)
      cases w with
      | object ms =>
          simp only [Option.map_some, sorted]
          rw [Json.lookup_sortedMembers (Value.wellFormed_object.1 own).1]
          cases ms.lookup ↑"to" <;> rfl
      | null | bool _ | int _ | float _ | str _ | list _ => rfl

theorem statusIsLastTarget_unordered : Unordered statusIsLastTarget := by
  intro path v hv
  simp only [statusIsLastTarget, Value.member?_sorted hv, lastTarget?_sorted hv]
  cases v.member? "status" with
  | none => rfl
  | some status =>
      cases lastTarget? v with
      | none => cases status <;> rfl
      | some target =>
          cases status with
          | str s =>
              have ends (w : Value) (issue : Issue) :
                  (if w = .str s then [] else [issue]) = [] ↔ w = .str s := by
                split <;> simp_all
              exact (ends _ _).trans (Value.sorted_eq_str.trans (ends _ _).symm)
          | null | bool _ | int _ | float _ | list _ | object _ => rfl

theorem finalStatus_unordered : Unordered finalStatus := by
  intro path v hv
  simp only [finalStatus, Value.member?_sorted hv]
  cases v.member? "status" with
  | none => rfl
  | some status => cases status <;> rfl

theorem planFields_unordered : Unordered planFields := by
  have notBlank : Unordered notBlank := .ofText fun _ _ => rfl
  have action : Unordered (oneOf factoryActions) := .ofText fun _ _ => rfl
  have status : Unordered (oneOf planStatuses) := .ofText fun _ _ => rfl
  refine .both ?_
  simp only [List.forall_mem_cons]
  exact ⟨notBlank.required _ _, notBlank.required _ _, action.required _ _, action.required _ _,
    (Unordered.between 0 1).required _ _, Unordered.anything.required _ _,
    Unordered.anything.required _ _, status.required _ _, transition_unordered.each.required _ _,
    statusIsLastTarget_unordered, List.forall_mem_nil _⟩

theorem adapterResult_unordered : Unordered adapterResult := by
  have notBlank : Unordered notBlank := .ofText fun _ _ => rfl
  have status : Unordered (oneOf adapterStatuses) := .ofText fun _ _ => rfl
  intro path v hv
  simp only [adapterResult, Value.fits_sorted]
  split
  · refine Unordered.both ?_ path v hv
    simp only [List.forall_mem_cons]
    exact ⟨.onlyMembers _, notBlank.required _ _, status.required _ _,
      Unordered.anything.optional _ _, notBlank.required _ _, List.forall_mem_nil _⟩
  · rfl

theorem ruleIds_sorted {d : Value} (hd : d.WellFormed) : ruleIds (sorted d) = ruleIds d := by
  simp only [ruleIds, document_member, Value.member?_sorted hd]
  cases d.member? "id" with
  | none => rfl
  | some id =>
      simp only [Option.map_some, document_fits, Value.fits_sorted]
      show (if (_ && (sorted id).text != "") = true then [(sorted id).text] else []) = _
      rw [Value.text_sorted]
      rfl

theorem rule_unordered (used : List Text) : Unordered (rule used) := by
  have notBlank : Unordered notBlank := .ofText fun _ _ => rfl
  have fresh : Unordered (freshId used) := .ofText fun _ _ => rfl
  have name (allowed : List Text) : Unordered (oneOf allowed) := .ofText fun _ _ => rfl
  refine .object (.both ?_)
  simp only [List.forall_mem_cons]
  exact ⟨.onlyMembers _, (notBlank.and fresh).required _ _, notBlank.required _ _,
    (name _).required _ _, (name _).required _ _, Unordered.anything.required _ _,
    List.forall_mem_nil _⟩

theorem rules_unordered : Unordered (rules : Check Value) := by
  have each (path : Path) (docs : List Value) (hd : ∀ d ∈ docs, d.WellFormed) :
      ∀ used index, rulesFrom path used index (docs.map sorted) = [] ↔
        rulesFrom path used index docs = [] := by
    induction docs with
    | nil => exact fun _ _ => Iff.rfl
    | cons d ds ih =>
        intro used index
        obtain ⟨first, rest⟩ := List.forall_mem_cons.1 hd
        rw [List.map_cons, rulesFrom, rulesFrom, List.append_eq_nil_iff, List.append_eq_nil_iff,
          rule_unordered used _ d first, ruleIds_sorted first, ih rest]
  intro path v hv
  have items : Document.items (sorted v) = (Document.items v).map sorted := Value.items_sorted v
  rw [rules, rules, items]
  exact each path _ (Value.items_wellFormed hv) [] 0

/-- A policy document meets its contract if it does so with its members sorted. -/
theorem policyIssues_sorted {v : Value} (hv : v.WellFormed) :
    policyIssues (sorted v) = [] ↔ policyIssues v = [] := by
  have notBlank : Unordered notBlank := .ofText fun _ _ => rfl
  have defaults : Unordered defaults := .both (by
    simp only [List.forall_mem_cons]
    exact ⟨.onlyMembers _, Unordered.anything.optional _ _, List.forall_mem_nil _⟩)
  simp only [policyIssues, document_fits, Value.fits_sorted]
  split
  · refine Unordered.both ?_ [] v hv
    simp only [List.forall_mem_cons]
    exact ⟨.onlyMembers _, notBlank.required _ _, defaults.optional _ _,
      rules_unordered.required _ _, List.forall_mem_nil _⟩
  · rfl

/-- An audit record meets its contract as it is read if it does so as it is written. -/
theorem auditIssues_sorted {v : Value} (hv : v.WellFormed) :
    auditIssues (sorted v) = .ok [] ↔ auditIssues v = .ok [] := by
  have notBlank : Unordered notBlank := .ofText fun _ _ => rfl
  have version : Unordered (schema auditSchema) := .ofText fun _ _ => rfl
  have digest : Unordered hash := .ofText fun _ _ => rfl
  have status : (((sorted v).member? "status").getD .null).hashable =
      ((v.member? "status").getD .null).hashable := by
    rw [Value.member?_sorted hv]
    cases v.member? "status" with
    | none => rfl
    | some w => exact Value.hashable_sorted w
  simp only [auditIssues, Value.fits_sorted, status]
  split
  · rfl
  · split
    · rfl
    · simp only [Except.ok.injEq]
      refine Unordered.both ?_ [] v hv
      simp only [List.forall_mem_cons]
      exact ⟨.onlyMembers _, version.required _ _, notBlank.required _ _, digest.required _ _,
        planFields_unordered, finalStatus_unordered, Unordered.anything.required _ _,
        adapterResult_unordered.each.required _ _, Unordered.anything.optional _ _,
        Unordered.anything.optional _ _, List.forall_mem_nil _⟩

end Contract

end ReleaseGate
