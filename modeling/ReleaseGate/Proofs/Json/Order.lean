import ReleaseGate.Proofs.Json.RoundTrip
import ReleaseGate.Proofs.Sorting
import ReleaseGate.Proofs.Text.Order

/-!
Sorted values. Sorting puts the members of every object in the order of their names and changes
nothing else, so values that differ in the order of their members only are sorted into one value,
and values with one line of text are sorted into one value too.
-/

namespace ReleaseGate.Json

theorem byName_asymm (m n : Text × Value) (h : byName m n = true) : byName n m = false := by
  simp only [byName, decide_eq_true_eq, decide_eq_false_iff_not] at *
  exact Text.lt_asymm h

theorem byName_trans (m n o : Text × Value) (hmn : byName n m = false) (hno : byName o n = false) :
    byName o m = false := by
  simp only [byName, decide_eq_false_iff_not] at *
  exact Text.not_lt_trans hmn hno

/-- The order of names tells the members of an object apart. -/
theorem byName_apart (ms : List (Text × Value)) (distinct : (Value.names ms).Nodup)
    (m n : Text × Value) (hm : m ∈ ms) (hn : n ∈ ms) (hmn : byName m n = false)
    (hnm : byName n m = false) : m = n := by
  simp only [byName, decide_eq_false_iff_not] at hmn hnm
  have name : m.1 = n.1 := Text.eq_of_not_lt hmn hnm
  obtain ⟨k, v⟩ := m
  obtain ⟨l, w⟩ := n
  subst name
  have value := (Value.lookup_eq_some_iff distinct).2 hm
  rw [(Value.lookup_eq_some_iff distinct).2 hn] at value
  rw [Option.some.inj value]

def sortedMember (m : Text × Value) : Text × Value := (m.1, sorted m.2)

theorem sortedItems_eq (vs : List Value) : sortedItems vs = vs.map sorted := by
  induction vs with
  | nil => rfl
  | cons v vs ih => rw [sortedItems, ih, List.map_cons]

theorem sortedMembers_eq (ms : List (Text × Value)) :
    sortedMembers ms = sortBy byName (ms.map sortedMember) := by
  induction ms with
  | nil => rfl
  | cons m ms ih => rw [sortedMembers, ih, List.map_cons, sortBy, sortedMember]

theorem sortedMembers_perm (ms : List (Text × Value)) :
    (sortedMembers ms).Perm (ms.map sortedMember) := by
  rw [sortedMembers_eq]
  exact sortBy_perm _ _

theorem sortedMembers_ordered (ms : List (Text × Value)) :
    Ordered byName (sortedMembers ms) := by
  rw [sortedMembers_eq]
  exact sortBy_ordered byName_asymm byName_trans _

theorem names_sortedMember (ms : List (Text × Value)) :
    Value.names (ms.map sortedMember) = Value.names ms := by
  simp [Value.names, sortedMember, Function.comp_def]

theorem names_sortedMembers (ms : List (Text × Value)) :
    (Value.names (sortedMembers ms)).Perm (Value.names ms) := by
  have perm := (sortedMembers_perm ms).map Prod.fst
  rwa [← Value.names, ← Value.names, names_sortedMember] at perm

theorem mem_names_sortedMembers {k : Text} {ms : List (Text × Value)} :
    k ∈ Value.names (sortedMembers ms) ↔ k ∈ Value.names ms :=
  (names_sortedMembers ms).mem_iff

theorem names_sortedMembers_nodup {ms : List (Text × Value)} (h : (Value.names ms).Nodup) :
    (Value.names (sortedMembers ms)).Nodup :=
  (names_sortedMembers ms).symm.nodup h

theorem sorted_wellFormed {v : Value} (hv : v.WellFormed) : (sorted v).WellFormed := by
  induction v with
  | null | bool _ | int _ | float _ | str _ => trivial
  | list vs ih =>
      have items := Value.wellFormed_list.1 hv
      rw [sorted, sortedItems_eq]
      refine Value.wellFormed_list.2 fun w hw => ?_
      obtain ⟨v, member, rfl⟩ := List.mem_map.1 hw
      exact ih v member (items v member)
  | object ms ih =>
      obtain ⟨distinct, members⟩ := Value.wellFormed_object.1 hv
      rw [sorted]
      refine Value.wellFormed_object.2 ⟨names_sortedMembers_nodup distinct, fun n hn => ?_⟩
      obtain ⟨m, member, rfl⟩ := List.mem_map.1 ((sortedMembers_perm ms).mem_iff.1 hn)
      exact ih m member (members m member)

/-- Sorting twice sorts once. -/
theorem sorted_sorted (v : Value) : sorted (sorted v) = sorted v := by
  induction v with
  | null | bool _ | int _ | float _ | str _ => rfl
  | list vs ih =>
      simp only [sorted, sortedItems_eq, List.map_map]
      exact congrArg Value.list (List.map_congr_left ih)
  | object ms ih =>
      have fixed : ∀ m ∈ sortedMembers ms, sortedMember m = m := by
        intro n hn
        obtain ⟨m, member, rfl⟩ := List.mem_map.1 ((sortedMembers_perm ms).mem_iff.1 hn)
        simp [sortedMember, ih m member]
      simp only [sorted]
      rw [sortedMembers_eq (sortedMembers ms), List.map_congr_left fixed, List.map_id']
      rw [sortBy_ordered_eq (sortedMembers_ordered ms)]

/-- Members that agree after sorting, up to their order, are sorted into the same. -/
theorem sortedMembers_congr {ms ns : List (Text × Value)}
    (h : (ms.map sortedMember).Perm (ns.map sortedMember)) (distinct : (Value.names ms).Nodup) :
    sortedMembers ms = sortedMembers ns := by
  rw [sortedMembers_eq ms]
  refine sortBy_eq_of_perm byName_asymm byName_trans
    (h.trans (sortedMembers_perm ns).symm) (sortedMembers_ordered ns) ?_
  exact byName_apart _ (by rwa [names_sortedMember])

/-- Keeping some members by their names and sorting do not hinder each other. -/
theorem sortedMembers_filter (p : Text → Bool) {ms : List (Text × Value)}
    (distinct : (Value.names ms).Nodup) :
    sortedMembers (ms.filter fun m => p m.1) = (sortedMembers ms).filter fun m => p m.1 := by
  have kept : (ms.filter fun m => p m.1).map sortedMember =
      (ms.map sortedMember).filter fun m => p m.1 := by
    simp [List.filter_map, Function.comp_def, sortedMember]
  rw [sortedMembers_eq, kept]
  refine sortBy_eq_of_perm byName_asymm byName_trans
    ((sortedMembers_perm ms).symm.filter _) ((sortedMembers_ordered ms).filter _) ?_
  have every := byName_apart (ms.map sortedMember) (by rwa [names_sortedMember])
  exact fun m n hm hn => every m n (List.mem_filter.1 hm).1 (List.mem_filter.1 hn).1

/-- A member is found under its name before and after sorting. -/
theorem lookup_sortedMembers {ms : List (Text × Value)} (distinct : (Value.names ms).Nodup)
    (k : Text) : (sortedMembers ms).lookup k = (ms.lookup k).map sorted := by
  rw [Value.lookup_perm (sortedMembers_perm ms) (names_sortedMembers_nodup distinct)]
  clear distinct
  induction ms with
  | nil => rfl
  | cons m ms ih =>
      obtain ⟨l, v⟩ := m
      simp only [List.map_cons, sortedMember, List.lookup_cons]
      cases k == l with
      | true => rfl
      | false => exact ih

/-- One line is written by one sorted value. -/
theorem sorted_eq_of_lineText {v w : Value} (hv : v.WellFormed) (hw : w.WellFormed)
    (same : lineText v = lineText w) : sorted v = sorted w := by
  have texts : (lineText v).toList = (lineText w).toList := congrArg Text.toList same
  rw [lineText, lineText, Text.toList_ofList, Text.toList_ofList] at texts
  exact write_injective spaced_plain (sorted_wellFormed hv) (sorted_wellFormed hw) texts

end ReleaseGate.Json
