import ReleaseGate.Value.Basic

/-!
Well-formed documents: no object has two members of one name, at any depth. Documents that are read
or built member by member are of this kind; the type of values allows others, so results about
names and lookups ask for it.
-/

namespace ReleaseGate.Value

/-- Induction on a value, with the statement for all items of a list and all members of an object.
-/
@[elab_as_elim, induction_eliminator]
theorem induction {motive : Value → Prop} (null : motive .null) (bool : ∀ b, motive (.bool b))
    (int : ∀ i, motive (.int i)) (float : ∀ x, motive (.float x)) (str : ∀ s, motive (.str s))
    (list : ∀ vs : List Value, (∀ v ∈ vs, motive v) → motive (.list vs))
    (object : ∀ ms : List (Text × Value), (∀ m ∈ ms, motive m.2) → motive (.object ms))
    (v : Value) : motive v :=
  Value.rec (motive_1 := motive) (motive_2 := fun vs => ∀ v ∈ vs, motive v)
    (motive_3 := fun ms => ∀ m ∈ ms, motive m.2) (motive_4 := fun m => motive m.2)
    null bool int float str list object (fun _ h => nomatch h)
    (fun _ _ hv hvs => List.forall_mem_cons.2 ⟨hv, hvs⟩) (fun _ h => nomatch h)
    (fun _ _ hm hms => List.forall_mem_cons.2 ⟨hm, hms⟩) (fun _ _ h => h) v

def names (members : List (Text × Value)) : List Text := members.map Prod.fst

mutual

def WellFormed : Value → Prop
  | .list vs => ItemsWellFormed vs
  | .object ms => (names ms).Nodup ∧ MembersWellFormed ms
  | _ => True

def ItemsWellFormed : List Value → Prop
  | [] => True
  | v :: vs => WellFormed v ∧ ItemsWellFormed vs

def MembersWellFormed : List (Text × Value) → Prop
  | [] => True
  | (_, v) :: ms => WellFormed v ∧ MembersWellFormed ms

end

theorem wellFormed_list {vs : List Value} : (Value.list vs).WellFormed ↔ ∀ v ∈ vs,
    v.WellFormed := by
  simp only [WellFormed]
  induction vs with
  | nil => simp [ItemsWellFormed]
  | cons v vs ih => simp [ItemsWellFormed, ih]

theorem membersWellFormed_iff {ms : List (Text × Value)} :
    MembersWellFormed ms ↔ ∀ m ∈ ms, m.2.WellFormed := by
  induction ms with
  | nil => simp [MembersWellFormed]
  | cons m ms ih => simp only [MembersWellFormed, ih, List.forall_mem_cons]

theorem wellFormed_object {ms : List (Text × Value)} :
    (Value.object ms).WellFormed ↔ (names ms).Nodup ∧ ∀ m ∈ ms, m.2.WellFormed := by
  simp only [WellFormed, membersWellFormed_iff]

@[simp] theorem names_nil : names [] = [] := rfl

@[simp] theorem names_cons (m : Text × Value) (ms : List (Text × Value)) :
    names (m :: ms) = m.1 :: names ms := rfl

@[simp] theorem names_append (ms ns : List (Text × Value)) :
    names (ms ++ ns) = names ms ++ names ns := List.map_append

theorem mem_names {k : Text} {ms : List (Text × Value)} : k ∈ names ms ↔ ∃ v, (k, v) ∈ ms := by
  simp [names]

theorem not_mem_names_before {k : Text} {v : Value} {ms ns : List (Text × Value)}
    (distinct : (names (ms ++ (k, v) :: ns)).Nodup) : k ∉ names ms := by
  simp only [names_append, names_cons, List.nodup_append] at distinct
  exact fun h => distinct.2.2 k h k (List.mem_cons_self ..) rfl

theorem putMember_new {k : Text} {v : Value} {ms : List (Text × Value)} (h : k ∉ names ms) :
    putMember k v ms = ms ++ [(k, v)] := by
  induction ms with
  | nil => rfl
  | cons m ms ih =>
      obtain ⟨head, tail⟩ := not_or.1 (fun hm => h (List.mem_cons.2 hm))
      simp [putMember, Ne.symm head, ih tail]

theorem names_putMember (k : Text) (v : Value) (ms : List (Text × Value)) :
    names (putMember k v ms) = if k ∈ names ms then names ms else names ms ++ [k] := by
  induction ms with
  | nil => rfl
  | cons m ms ih =>
      obtain ⟨l, w⟩ := m
      by_cases h : l = k
      · simp [putMember, h]
      · simp only [putMember, if_neg h, names_cons, ih, List.mem_cons, Ne.symm h, false_or]
        split <;> rfl

theorem names_putMember_nodup {k : Text} {v : Value} {ms : List (Text × Value)}
    (distinct : (names ms).Nodup) : (names (putMember k v ms)).Nodup := by
  rw [names_putMember]
  split
  · exact distinct
  · rename_i h
    refine List.nodup_append.2 ⟨distinct, List.pairwise_singleton _ k, fun l hl j hj => ?_⟩
    rw [List.mem_singleton.1 hj]
    exact fun same => h (same ▸ hl)

theorem mem_names_putMember {k j : Text} {v : Value} {ms : List (Text × Value)} :
    j ∈ names (putMember k v ms) ↔ j = k ∨ j ∈ names ms := by
  rw [names_putMember]
  split
  · rename_i h
    exact ⟨Or.inr, fun hj => hj.elim (fun same => same ▸ h) id⟩
  · rw [List.mem_append, List.mem_singleton, or_comm]

theorem mem_putMember {k : Text} {v : Value} {ms : List (Text × Value)} {m : Text × Value}
    (h : m ∈ putMember k v ms) : m = (k, v) ∨ m ∈ ms := by
  induction ms with
  | nil => exact Or.inl (List.mem_singleton.1 h)
  | cons n ms ih =>
      rw [putMember] at h
      split at h
      · rename_i same
        exact (List.mem_cons.1 h).imp (fun h => same ▸ h) (List.mem_cons_of_mem _)
      · obtain rfl | h := List.mem_cons.1 h
        · exact Or.inr (List.mem_cons_self ..)
        · exact (ih h).imp_right (List.mem_cons_of_mem _)

/-- A put member is not seen by a test that its name fails. -/
theorem filter_putMember {p : Text → Bool} {k : Text} (hk : p k = false) (v : Value)
    (ms : List (Text × Value)) :
    (putMember k v ms).filter (fun m => p m.1) = ms.filter fun m => p m.1 := by
  induction ms with
  | nil => simp [putMember, hk]
  | cons m ms ih =>
      rw [putMember]
      split
      · rename_i same
        simp [same, hk]
      · rw [List.filter_cons, List.filter_cons, ih]

/-- Setting a member replaces the one of its name and keeps the others. -/
theorem putMember_perm (k : Text) (v : Value) {ms : List (Text × Value)}
    (distinct : (names ms).Nodup) :
    (putMember k v ms).Perm ((k, v) :: ms.filter fun m => m.1 != k) := by
  induction ms with
  | nil => exact List.Perm.refl _
  | cons m ms ih =>
      simp only [names_cons, List.nodup_cons] at distinct
      by_cases h : m.1 = k
      · have rest : ms.filter (fun m => m.1 != k) = ms := by
          refine List.filter_eq_self.2 fun n hn => ?_
          have name : n.1 ∈ names ms := List.mem_map_of_mem hn
          exact bne_iff_ne.2 fun same => distinct.1 (h ▸ same ▸ name)
        simp [putMember, h, rest]
      · rw [putMember, if_neg h, List.filter_cons_of_pos (by simpa using h)]
        exact ((ih distinct.2).cons m).trans (List.Perm.swap _ _ _)

theorem putMember_wellFormed {k : Text} {v : Value} {ms : List (Text × Value)}
    (hv : v.WellFormed) (h : (Value.object ms).WellFormed) :
    (Value.object (putMember k v ms)).WellFormed := by
  obtain ⟨distinct, members⟩ := wellFormed_object.1 h
  refine wellFormed_object.2 ⟨names_putMember_nodup distinct, fun m hm => ?_⟩
  obtain rfl | hm := mem_putMember hm
  · exact hv
  · exact members m hm

theorem filter_wellFormed (p : Text × Value → Bool) {ms : List (Text × Value)}
    (h : (Value.object ms).WellFormed) : (Value.object (ms.filter p)).WellFormed := by
  obtain ⟨distinct, members⟩ := wellFormed_object.1 h
  have sub : (ms.filter p).Sublist ms := List.filter_sublist
  exact wellFormed_object.2
    ⟨distinct.sublist (sub.map Prod.fst), fun m hm => members m (sub.subset hm)⟩

/-- The order of members does not matter to well-formedness. -/
theorem perm_wellFormed {ms ns : List (Text × Value)} (perm : ms.Perm ns)
    (h : (Value.object ms).WellFormed) : (Value.object ns).WellFormed := by
  obtain ⟨distinct, members⟩ := wellFormed_object.1 h
  exact wellFormed_object.2
    ⟨(perm.map Prod.fst).nodup distinct, fun m hm => members m (perm.mem_iff.2 hm)⟩

theorem lookup_cons_if (k : Text) (m : Text × Value) (ms : List (Text × Value)) :
    (m :: ms).lookup k = if k = m.1 then some m.2 else ms.lookup k := by
  obtain ⟨l, v⟩ := m
  rw [List.lookup_cons]
  by_cases h : k = l
  · simp [h]
  · have skip : (k == l) = false := by simpa using h
    simp [skip, h]

/-- A member that was set is found, and the others as before. -/
theorem lookup_putMember (k j : Text) (v : Value) (ms : List (Text × Value)) :
    (putMember k v ms).lookup j = if j = k then some v else ms.lookup j := by
  induction ms with
  | nil => rw [putMember, lookup_cons_if]
  | cons m ms ih =>
      rw [putMember]
      split
      · rename_i same
        simp only [lookup_cons_if, same]
        split <;> rfl
      · rename_i other
        simp only [lookup_cons_if, ih]
        split
        · rename_i h
          rw [if_neg (h ▸ other)]
        · rfl

theorem mem_of_lookup {k : Text} {v : Value} {ms : List (Text × Value)}
    (h : ms.lookup k = some v) : (k, v) ∈ ms := by
  obtain ⟨before, after, rfl, -⟩ := List.lookup_eq_some_iff.1 h
  exact List.mem_append_right before List.mem_cons_self

theorem lookup_eq_some_iff {k : Text} {v : Value} {ms : List (Text × Value)}
    (distinct : (names ms).Nodup) : ms.lookup k = some v ↔ (k, v) ∈ ms := by
  induction ms with
  | nil => simp
  | cons m ms ih =>
      obtain ⟨l, w⟩ := m
      simp only [names_cons, List.nodup_cons] at distinct
      by_cases h : k = l
      · subst h
        have absent (x : Value) : (k, x) ∉ ms := fun hm => distinct.1 (mem_names.2 ⟨x, hm⟩)
        simp [absent, eq_comm]
      · simp [lookup_cons_if, h, ih distinct.2]

theorem lookup_eq_none_iff {k : Text} {ms : List (Text × Value)} :
    ms.lookup k = none ↔ k ∉ names ms := by
  induction ms with
  | nil => simp
  | cons m ms ih =>
      obtain ⟨l, w⟩ := m
      by_cases h : k = l
      · simp [h]
      · simp [lookup_cons_if, h, ih]

/-- Lookups do not see the order of members. -/
theorem lookup_perm {ms ns : List (Text × Value)} (h : ms.Perm ns) (distinct : (names ms).Nodup)
    (k : Text) : ms.lookup k = ns.lookup k := by
  have distinct' : (names ns).Nodup := (h.map Prod.fst).nodup distinct
  cases hv : ms.lookup k with
  | none =>
      have absent := lookup_eq_none_iff.1 hv
      refine (lookup_eq_none_iff.2 fun hk => absent ?_).symm
      exact (h.map Prod.fst).mem_iff.2 hk
  | some v =>
      have member := (lookup_eq_some_iff distinct).1 hv
      exact ((lookup_eq_some_iff distinct').2 (h.mem_iff.1 member)).symm

end ReleaseGate.Value
