import ReleaseGate.Proofs.Json.Lexemes

/-!
The text of a well-formed value reads back as that value: its lexemes take the reader from waiting
for a value to having it, with any containers open around it.
-/

namespace ReleaseGate.Json

/-- A value whose lexemes give the reader the value it waits for. -/
def Reads (v : Value) : Prop :=
  ∀ (stack : List Frame) (ts : List Token),
    run (.value stack) (lexemes v ++ ts) = run (.complete v stack) ts

/-- Where a list may also end, its first item is read as any value is. -/
theorem run_firstItem (v : Value) (stack : List Frame) (ts : List Token) :
    run (.firstItem stack) (lexemes v ++ ts) =
      run (.value (.items [] :: stack)) (lexemes v ++ ts) := by
  cases v with
  | list vs => cases vs <;> rfl
  | object ms => cases ms <;> rfl
  | _ => rfl

theorem run_items {vs : List Value} (reads : ∀ v ∈ vs, Reads v) (v : Value) (before : List Value)
    (stack : List Frame) (ts : List Token) :
    run (.complete v (.items before :: stack)) (itemLexemes vs ++ .closeList :: ts) =
      run (.complete (.list (before.reverse ++ v :: vs)) stack) ts := by
  induction vs generalizing v before with
  | nil => simp [itemLexemes, run, step]
  | cons w vs ih =>
      have parts := List.forall_mem_cons.1 reads
      have next := parts.1 (.items (v :: before) :: stack) (itemLexemes vs ++ .closeList :: ts)
      simp only [itemLexemes, List.cons_append, List.append_assoc, run, step, Option.bind_some]
      rw [next, ih parts.2]
      simp

/-- Members that read are collected under their names. -/
theorem run_members {ms : List (Text × Value)} (reads : ∀ m ∈ ms, Reads m.2)
    {before : List (Text × Value)} {k : Text} (v : Value)
    (distinct : (Value.names (before ++ (k, v) :: ms)).Nodup) (stack : List Frame)
    (ts : List Token) :
    run (.complete v (.member before k :: stack)) (memberLexemes ms ++ .closeObject :: ts) =
      run (.complete (.object (before ++ (k, v) :: ms)) stack) ts := by
  have new : k ∉ Value.names before := Value.not_mem_names_before distinct
  induction ms generalizing before k v with
  | nil => simp [memberLexemes, run, step, Value.putMember_new new]
  | cons m ms ih =>
      obtain ⟨l, w⟩ := m
      have parts := List.forall_mem_cons.1 reads
      have shape : before ++ (k, v) :: (l, w) :: ms = (before ++ [(k, v)]) ++ (l, w) :: ms := by
        simp
      rw [shape] at distinct
      have next := parts.1 (.member (before ++ [(k, v)]) l :: stack)
        (memberLexemes ms ++ .closeObject :: ts)
      simp only [memberLexemes, List.cons_append, List.append_assoc, run, step, startValue,
        Option.bind_some, Value.putMember_new new]
      rw [next, ih parts.2 w distinct (Value.not_mem_names_before distinct), shape]

/-- The tokens of a well-formed value are read back as the value. -/
theorem reads_of_wellFormed {v : Value} (hv : v.WellFormed) : Reads v := by
  induction v with
  | null | bool _ | int _ | float _ | str _ => exact fun _ _ => rfl
  | list vs ih =>
      have items := Value.wellFormed_list.1 hv
      intro stack ts
      cases vs with
      | nil => rfl
      | cons v vs =>
          -- The list could end where its first item stands; the other items stand behind a comma.
          have parts := List.forall_mem_cons.1 fun v h => ih v h (items v h)
          have first := parts.1 (.items [] :: stack) (itemLexemes vs ++ .closeList :: ts)
          simp only [lexemes, List.cons_append, List.append_assoc, List.nil_append, run, step,
            startValue, Option.bind_some]
          rw [run_firstItem, first, run_items parts.2]
          rfl
  | object ms ih =>
      obtain ⟨distinct, members⟩ := Value.wellFormed_object.1 hv
      intro stack ts
      cases ms with
      | nil => rfl
      | cons m ms =>
          obtain ⟨k, v⟩ := m
          have parts := List.forall_mem_cons.1 fun m h => ih m h (members m h)
          have first := parts.1 (.member [] k :: stack) (memberLexemes ms ++ .closeObject :: ts)
          simp only [lexemes, List.cons_append, List.append_assoc, List.nil_append, run, step,
            startValue, Option.bind_some]
          rw [first, run_members parts.2 v distinct]
          rfl

theorem write_object (l : Layout) (ms : List (Text × Value)) :
    ∃ inner, write l (.object ms) = CodePoint.char '\x7b' :: (inner ++ [.char '\x7d']) := by
  cases ms with
  | nil => exact ⟨[], rfl⟩
  | cons m ms => exact ⟨_, rfl⟩

/-- What is written of a well-formed value is read back as it was. -/
theorem read?_write {l : Layout} (hl : l.Plain) {v : Value} (hv : v.WellFormed) :
    read? (write l v) = some v := by
  have cut : tokens? (write l v ++ []) = some (lexemes v ++ []) :=
    tokens?_write hl v (fun _ h => nomatch h) tokens?_nil
  have reads := reads_of_wellFormed hv [] []
  rw [List.append_nil, List.append_nil] at cut
  rw [List.append_nil] at reads
  simp only [read?, cut, Option.bind_some, reads, run]

/-- Different well-formed values have different texts. -/
theorem write_injective {l : Layout} (hl : l.Plain) {v w : Value} (hv : v.WellFormed)
    (hw : w.WellFormed) (same : write l v = write l w) : v = w := by
  have read := read?_write hl hv
  rw [same, read?_write hl hw] at read
  exact (Option.some.inj read).symm

end ReleaseGate.Json
