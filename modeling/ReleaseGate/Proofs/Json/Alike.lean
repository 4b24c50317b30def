import Mathlib.Data.List.Forall2
import Mathlib.Data.List.Nodup
import Mathlib.Data.List.Perm.Subperm
import ReleaseGate.Proofs.Json.Order

/-!
Values that differ at most in the order of the members of objects, at any depth. For well-formed
values these are the ones that are sorted into the same value, and so the ones with the same text.
-/

namespace ReleaseGate

namespace Value

mutual

/-- Equal up to the order of members. -/
def Alike : Value → Value → Prop
  | .list vs, .list ws => ItemsAlike vs ws
  | .object ms, .object ns => ms.length = ns.length ∧ MembersAlike ms ns
  | v, w => v = w

def ItemsAlike : List Value → List Value → Prop
  | [], [] => True
  | v :: vs, w :: ws => Alike v w ∧ ItemsAlike vs ws
  | _, _ => False

def MembersAlike : List (Text × Value) → List (Text × Value) → Prop
  | [], _ => True
  | (k, v) :: ms, ns => (∃ w, ns.lookup k = some w ∧ Alike v w) ∧ MembersAlike ms ns

end

theorem itemsAlike_iff {vs ws : List Value} : ItemsAlike vs ws ↔ List.Forall₂ Alike vs ws := by
  induction vs generalizing ws with
  | nil => cases ws <;> simp [ItemsAlike]
  | cons v vs ih => cases ws <;> simp [ItemsAlike, ih]

theorem membersAlike_iff {ms ns : List (Text × Value)} :
    MembersAlike ms ns ↔ ∀ m ∈ ms, ∃ w, ns.lookup m.1 = some w ∧ Alike m.2 w := by
  induction ms with
  | nil => simp [MembersAlike]
  | cons m ms ih => simp only [MembersAlike, ih, List.forall_mem_cons]

theorem alike_list {vs ws : List Value} :
    (Value.list vs).Alike (.list ws) ↔ List.Forall₂ Alike vs ws := by
  rw [Alike, itemsAlike_iff]

/-- Objects are alike if they have as many members and each is found again under its name. -/
theorem alike_object {ms ns : List (Text × Value)} :
    (Value.object ms).Alike (.object ns) ↔
      ms.length = ns.length ∧ ∀ m ∈ ms, ∃ w, ns.lookup m.1 = some w ∧ Alike m.2 w := by
  rw [Alike, membersAlike_iff]

/-- Only a text is like a text. -/
theorem str_alike {s : Text} {v : Value} : (Value.str s).Alike v ↔ v = .str s := by
  rw [Alike, eq_comm]
  all_goals simp

end Value

namespace Json

/-- Members that agree after sorting, up to their order. -/
theorem sortedMembers_eq_iff {ms ns : List (Text × Value)} (distinct : (Value.names ms).Nodup) :
    sortedMembers ms = sortedMembers ns ↔ (ms.map sortedMember).Perm (ns.map sortedMember) := by
  constructor
  · intro same
    exact (sortedMembers_perm ms).symm.trans (same ▸ sortedMembers_perm ns)
  · exact fun perm => sortedMembers_congr perm distinct

theorem nodup_of_names {ms : List (Text × Value)} (distinct : (Value.names ms).Nodup) :
    (ms.map sortedMember).Nodup := by
  rw [← names_sortedMember, Value.names] at distinct
  exact List.Nodup.of_map Prod.fst distinct

/-- A value for which likeness and sorting come to the same. -/
def Settled (v : Value) : Prop :=
  ∀ {w : Value}, w.WellFormed → (v.Alike w ↔ sorted v = sorted w)

theorem items_settled {vs ws : List Value} (settled : ∀ v ∈ vs, Settled v)
    (hw : ∀ w ∈ ws, w.WellFormed) :
    List.Forall₂ Value.Alike vs ws ↔ vs.map sorted = ws.map sorted := by
  induction vs generalizing ws with
  | nil => cases ws <;> simp
  | cons v vs ih =>
      cases ws with
      | nil => simp
      | cons w ws =>
          obtain ⟨first, rest⟩ := List.forall_mem_cons.1 settled
          obtain ⟨head, tail⟩ := List.forall_mem_cons.1 hw
          simp [first head, ih rest tail]

/-- Objects are alike exactly if their sorted members are the same up to order, once this holds
inside them. -/
theorem members_settled {ms ns : List (Text × Value)} (settled : ∀ m ∈ ms, Settled m.2)
    (apart : (Value.names ms).Nodup) (hn : (Value.object ns).WellFormed) :
    (ms.length = ns.length ∧ ∀ m ∈ ms, ∃ w, ns.lookup m.1 = some w ∧ m.2.Alike w) ↔
      (ms.map sortedMember).Perm (ns.map sortedMember) := by
  obtain ⟨distinct, wellFormed⟩ := Value.wellFormed_object.1 hn
  constructor
  · rintro ⟨size, partners⟩
    have sub : ms.map sortedMember ⊆ ns.map sortedMember := by
      refine List.forall_mem_map.2 fun m hm => ?_
      obtain ⟨w, found, alike⟩ := partners m hm
      have member := (Value.lookup_eq_some_iff distinct).1 found
      have same := (settled m hm (wellFormed _ member)).1 alike
      exact List.mem_map.2 ⟨_, member, by rw [sortedMember, sortedMember, same]⟩
    exact ((nodup_of_names apart).subperm sub).perm_of_length_le (by simp [size])
  · intro perm
    refine ⟨by simpa using perm.length_eq, fun m hm => ?_⟩
    obtain ⟨n, member, same⟩ := List.mem_map.1 (perm.subset (List.mem_map_of_mem hm))
    simp only [sortedMember, Prod.mk.injEq] at same
    refine ⟨n.2, (Value.lookup_eq_some_iff distinct).2 (same.1 ▸ member), ?_⟩
    exact (settled m hm (wellFormed n member)).2 same.2.symm

/-- Values are alike exactly if they are sorted into the same value. -/
theorem alike_iff_sorted {v w : Value} (hv : v.WellFormed) (hw : w.WellFormed) :
    v.Alike w ↔ sorted v = sorted w := by
  induction v generalizing w with
  | null | bool _ | int _ | float _ | str _ => cases w <;> simp [Value.Alike, sorted]
  | list vs ih =>
      have items := Value.wellFormed_list.1 hv
      cases w with
      | list ws =>
          rw [Value.alike_list, sorted, sorted, sortedItems_eq, sortedItems_eq, Value.list.injEq]
          exact items_settled (fun v hv => ih v hv (items v hv)) (Value.wellFormed_list.1 hw)
      | _ => simp [Value.Alike, sorted]
  | object ms ih =>
      obtain ⟨distinct, members⟩ := Value.wellFormed_object.1 hv
      cases w with
      | object ns =>
          rw [Value.alike_object, sorted, sorted, Value.object.injEq, sortedMembers_eq_iff distinct]
          exact members_settled (fun m hm => ih m hm (members m hm)) distinct hw
      | _ => simp [Value.Alike, sorted]

theorem sorted_alike {v : Value} (hv : v.WellFormed) : (sorted v).Alike v :=
  (alike_iff_sorted (sorted_wellFormed hv) hv).2 (sorted_sorted v)

theorem alike_refl {v : Value} (hv : v.WellFormed) : v.Alike v :=
  (alike_iff_sorted hv hv).2 rfl

/-- Objects are alike where the first has every name of the second, and each of its members has a
partner there. -/
theorem alike_of_partners {ms ns : List (Text × Value)} (hm : (Value.names ms).Nodup)
    (hn : (Value.names ns).Nodup) (known : ∀ k ∈ Value.names ns, k ∈ Value.names ms)
    (partners : ∀ m ∈ ms, ∃ w, ns.lookup m.1 = some w ∧ m.2.Alike w) :
    (Value.object ms).Alike (.object ns) := by
  have found : ∀ k ∈ Value.names ms, k ∈ Value.names ns := List.forall_mem_map.2 fun m hm => by
    obtain ⟨w, there, -⟩ := partners m hm
    exact Value.mem_names.2 ⟨w, (Value.lookup_eq_some_iff hn).1 there⟩
  have names : (Value.names ms).length = (Value.names ns).length :=
    Nat.le_antisymm (hm.subperm found).length_le (hn.subperm known).length_le
  exact Value.alike_object.2 ⟨by simpa [Value.names] using names, partners⟩

theorem write_sorted_eq_iff {l : Layout} (hl : l.Plain) {v w : Value} (hv : v.WellFormed)
    (hw : w.WellFormed) : write l (sorted v) = write l (sorted w) ↔ v.Alike w := by
  rw [alike_iff_sorted hv hw]
  exact ⟨write_injective hl (sorted_wellFormed hv) (sorted_wellFormed hw), congrArg (write l)⟩

/-- Two values have one canonical text exactly if they differ in the order of members only. -/
theorem canonicalText_eq_iff {v w : Value} (hv : v.WellFormed) (hw : w.WellFormed) :
    canonicalText v = canonicalText w ↔ v.Alike w := by
  rw [canonicalText, canonicalText, Text.ofList_inj, write_sorted_eq_iff compact_plain hv hw]

theorem lineText_eq_iff {v w : Value} (hv : v.WellFormed) (hw : w.WellFormed) :
    lineText v = lineText w ↔ v.Alike w := by
  rw [lineText, lineText, Text.ofList_inj, write_sorted_eq_iff spaced_plain hv hw]

section

variable {k : Text} {p q : Value} {ms ns : List (Text × Value)}

/-- A put member takes the place of any other one with its name. -/
theorem sortedMembers_putMember (distinct : (Value.names ms).Nodup) :
    ((putMember k p ms).map sortedMember).Perm
      ((k, sorted p) :: (ms.filter fun m => m.1 != k).map sortedMember) :=
  (Value.putMember_perm k p distinct).map sortedMember

/-- What is put and what was there besides are two parts of an object, and each counts. -/
theorem alike_putMember (hp : p.WellFormed) (hq : q.WellFormed)
    (hm : (Value.object ms).WellFormed) (hn : (Value.object ns).WellFormed) :
    (Value.object (putMember k p ms)).Alike (.object (putMember k q ns)) ↔
      p.Alike q ∧ (Value.object (ms.filter fun m => m.1 != k)).Alike
        (.object (ns.filter fun m => m.1 != k)) := by
  have hm' := Value.putMember_wellFormed (k := k) hp hm
  have hn' := Value.putMember_wellFormed (k := k) hq hn
  obtain ⟨distinct, -⟩ := Value.wellFormed_object.1 hm
  obtain ⟨distinct', -⟩ := Value.wellFormed_object.1 hn
  obtain ⟨put, -⟩ := Value.wellFormed_object.1 hm'
  obtain ⟨put', -⟩ := Value.wellFormed_object.1 hn'
  have rest := Value.filter_wellFormed (fun m => m.1 != k) hm
  rw [alike_iff_sorted hm' hn', alike_iff_sorted hp hq,
    alike_iff_sorted rest (Value.filter_wellFormed _ hn)]
  simp only [sorted, Value.object.injEq]
  constructor
  · intro same
    have member := lookup_sortedMembers put k
    rw [same, lookup_sortedMembers put', Value.lookup_putMember, if_pos rfl, Value.lookup_putMember,
      if_pos rfl] at member
    have others := sortedMembers_filter (fun n => n != k) put
    rw [same, ← sortedMembers_filter (fun n => n != k) put',
      Value.filter_putMember (p := fun n => n != k) (by simp),
      Value.filter_putMember (p := fun n => n != k) (by simp)] at others
    exact ⟨(Option.some.inj member).symm, others⟩
  · rintro ⟨member, others⟩
    have perm := (sortedMembers_eq_iff (Value.wellFormed_object.1 rest).1).1 others
    rw [sortedMembers_eq_iff put]
    refine (sortedMembers_putMember distinct).trans ?_
    rw [member]
    exact (perm.cons _).trans (sortedMembers_putMember distinct').symm

end

end Json

end ReleaseGate
