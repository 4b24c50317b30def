import ReleaseGate.Proofs.Audit.Lines

/-!
The text of entries that go on from one another, read back. Every line is an entry and the hashes
link up, so the only breach that can be found is an entry whose record is not hashed as it is read.
The next record goes behind the last entry.
-/

namespace ReleaseGate.Audit

/-- Entries that go on from a hash and from one another, each with its own hash. -/
def GoesOn (previous : Value) : List Entry → Prop
  | [] => True
  | e :: es => e.prevHash = previous ∧ e.Hashed ∧ GoesOn e.entryHash es

/-- The hash that the next entry names, where `previous` is the one before all entries. -/
def tailHash (previous : Value) (es : List Entry) : Value :=
  (es.getLast?.map Entry.entryHash).getD previous

def written (es : List Entry) : List CodePoint :=
  (es.map fun e => e.lineText.toList).flatMap (· ++ [.char '\n'])

theorem written_append (es fs : List Entry) : written (es ++ fs) = written es ++ written fs := by
  simp [written]

theorem tailHash_append_singleton (previous : Value) (es : List Entry) (e : Entry) :
    tailHash previous (es ++ [e]) = e.entryHash := by
  simp [tailHash]

theorem tailHash_cons (previous : Value) (e : Entry) (es : List Entry) :
    tailHash previous (e :: es) = tailHash e.entryHash es := by
  simp only [tailHash, List.getLast?_cons]
  cases es.getLast? <;> rfl

/-- A chain is cut anywhere: the rest goes on from the hash the first part ends with. -/
theorem goesOn_append {previous : Value} {es fs : List Entry} :
    GoesOn previous (es ++ fs) ↔ GoesOn previous es ∧ GoesOn (tailHash previous es) fs := by
  induction es generalizing previous with
  | nil => exact (and_iff_right trivial).symm
  | cons e es ih => rw [List.cons_append, GoesOn, GoesOn, ih, tailHash_cons, and_assoc, and_assoc]

/-- Entries that go on from one hash go on from another one only where they are none. -/
theorem GoesOn.other {previous other : Value} {es : List Entry} (h : GoesOn previous es) :
    GoesOn other es ↔ es = [] ∨ other = previous := by
  cases es with
  | nil => exact iff_of_true trivial (Or.inl rfl)
  | cons e es =>
      obtain ⟨names, own, rest⟩ := h
      constructor
      · rintro ⟨same, -⟩
        exact Or.inr (same.symm.trans names)
      · rintro (none | rfl)
        · cases none
        · exact ⟨names, own, rest⟩

theorem GoesOn.hashed {previous : Value} {es : List Entry} (h : GoesOn previous es) :
    ∀ e ∈ es, e.Hashed := by
  induction es generalizing previous with
  | nil => exact List.forall_mem_nil _
  | cons e es ih => exact List.forall_mem_cons.2 ⟨h.2.1, ih h.2.2⟩

/-- Whatever goes on from a string is gone on from with a string. -/
theorem GoesOn.tail_string {es : List Entry} {s : String} (h : GoesOn (.str s) es) :
    ∃ t : String, tailHash (.str s) es = .str t := by
  induction es generalizing s with
  | nil => exact ⟨s, rfl⟩
  | cons e es ih =>
      obtain ⟨-, ⟨hash, -, own⟩, rest⟩ := h
      rw [tailHash_cons, own]
      exact ih (own ▸ rest)

theorem GoesOn.wellFormed {es : List Entry} {s : String} (h : GoesOn (.str s) es)
    (records : ∀ e ∈ es, (Value.object e.record).WellFormed) : ∀ e ∈ es, e.WellFormed := by
  induction es generalizing s with
  | nil => exact List.forall_mem_nil _
  | cons e es ih =>
      obtain ⟨record, others⟩ := List.forall_mem_cons.1 records
      obtain ⟨names, ⟨hash, -, own⟩, rest⟩ := h
      exact List.forall_mem_cons.2
        ⟨⟨record, ⟨_, names⟩, ⟨_, own⟩⟩, ih (own ▸ rest) others⟩

theorem writtenLines_written (es : List Entry) :
    writtenLines (written es) = es.map fun e => e.lineText.toList := by
  have isLine : ∀ l ∈ es.map (fun e => e.lineText.toList), Text.IsLine l := by
    intro l hl
    obtain ⟨e, -, rfl⟩ := List.mem_map.1 hl
    exact e.lineText_isLine
  have stripped : (es.map fun e => e.lineText.toList).map Text.strip =
      es.map fun e => e.lineText.toList :=
    (List.map_congr_left fun l hl => Text.strip_line (isLine l hl)).trans (List.map_id _)
  rw [writtenLines, written, Text.lines_written isLine, List.map_append, stripped,
    List.filter_append, List.filter_eq_self.2]
  · simp [Text.strip]
  · intro l hl
    obtain ⟨c, rest, rfl, -⟩ := (isLine l hl).first
    rfl

theorem written_reads {es : List Entry} (h : ∀ e ∈ es, e.WellFormed) :
    List.Forall₂ Reads (writtenLines (written es)) (es.map Entry.asRead) := by
  rw [writtenLines_written, List.forall₂_map_left_iff, List.forall₂_map_right_iff]
  exact List.forall₂_same.2 fun e he => (h e he).reads

/-- A written chain is read back record by record. -/
theorem entries_written {text : Text} {es : List Entry} (h : ∀ e ∈ es, e.WellFormed)
    (ht : text.toList = written es) : entries text = .ok (es.map Entry.asRead) :=
  entries_of_reads (ht ▸ written_reads h)

/-- An entry whose record is hashed as it is read. -/
def Entry.Intact (e : Entry) : Prop := e.asRead.computedHash = e.computedHash

/-- The next record is bound to the hash of the last one written. -/
theorem lastHash_written {text : Text} {es : List Entry} (h : ∀ e ∈ es, e.WellFormed)
    (ht : text.toList = written es) : lastHash text = .ok (tailHash (.str genesisHash) es) := by
  have lines : writtenLines text.toList = es.map fun e => e.lineText.toList :=
    ht ▸ writtenLines_written es
  rw [tailHash]
  cases last : es.getLast? with
  | none =>
      rw [lastHash, lines, List.getLast?_map, last]
      rfl
  | some e =>
      have reads := (h e (List.mem_of_getLast? last)).reads
      have line : (writtenLines text.toList).getLast? = some e.lineText.toList := by
        rw [lines, List.getLast?_map, last]
        rfl
      exact lastHash_of_reads (e := e.asRead) reads line

end ReleaseGate.Audit
