import ReleaseGate.Proofs.Audit.Entry
import ReleaseGate.Proofs.Json.Alike
import ReleaseGate.Proofs.Json.Reading
import ReleaseGate.Proofs.Steps

/-!
What the readers of a log make of its lines, whoever wrote them. A line is an entry if it is an
object with both hashes. An object without one of them, null and a line that is no document are
reported and passed over; any other document stops the readers.
-/

namespace ReleaseGate.Audit

def Reads (line : List CodePoint) (e : Entry) : Prop :=
  ∃ ms, Json.read? line = some (.object ms) ∧ e.record = own ms ∧
    ms.lookup prevHashField = some e.prevHash ∧ ms.lookup entryHashField = some e.entryHash

/-- A line that is a document, but neither an object nor null. -/
def Foreign (line : List CodePoint) : Prop :=
  ∃ v, Json.read? line = some v ∧ v ≠ .null ∧ ∀ ms, v ≠ .object ms

def readLine? (line : List CodePoint) : Option Entry :=
  ((document? line).map Entry.ofValue).bind Except.toOption

/-- An object is an entry if it has both hashes, and otherwise lacks the first one it is asked for.
-/
theorem ofValue_object (ms : List (Text × Value)) :
    Entry.ofValue (.object ms) =
      match ms.lookup prevHashField, ms.lookup entryHashField with
      | none, _ => .error (.missingMember prevHashField)
      | some _, none => .error (.missingMember entryHashField)
      | some prevHash, some entryHash => .ok ⟨own ms, prevHash, entryHash⟩ := by
  simp only [Entry.ofValue, Value.need]
  cases ms.lookup prevHashField with
  | none => rfl
  | some prevHash => cases ms.lookup entryHashField <;> rfl

theorem ofValue_other {v : Value} (other : ∀ ms, v ≠ .object ms) :
    Entry.ofValue v = .error .notAnObject := by
  cases v with
  | object ms => exact absurd rfl (other ms)
  | null | bool _ | int _ | float _ | str _ | list _ => rfl

theorem document?_of_read {line : List CodePoint} {v : Value} (read : Json.read? line = some v)
    (some : v ≠ .null) : document? line = .some v := by
  unfold document?
  split
  · rename_i null
    rw [read] at null
    exact absurd (Option.some.inj null) some
  · exact read

theorem Reads.ofValue {line : List CodePoint} {e : Entry} (h : Reads line e) :
    (document? line).map Entry.ofValue = some (.ok e) := by
  obtain ⟨ms, read, record, prevHash, entryHash⟩ := h
  rw [document?_of_read read (by simp), Option.map_some]
  rw [ofValue_object, prevHash, entryHash, ← record]

theorem Foreign.ofValue {line : List CodePoint} (h : Foreign line) :
    (document? line).map Entry.ofValue = some (.error .notAnObject) := by
  obtain ⟨v, read, some, other⟩ := h
  rw [document?_of_read read some, Option.map_some, ofValue_other other]

/-- A line that is no entry and does not stop the readers is passed over. -/
theorem ofValue_passed {line : List CodePoint} (none : ∀ e, ¬ Reads line e)
    (known : ¬ Foreign line) :
    (document? line).map Entry.ofValue = Option.none ∨
      ∃ field, (document? line).map Entry.ofValue = some (.error (.missingMember field)) := by
  cases read : Json.read? line with
  | none => exact Or.inl (by rw [document?, read]; rfl)
  | some v =>
      cases v with
      | null => exact Or.inl (by rw [document?, read]; rfl)
      | object ms =>
          refine Or.inr ?_
          rw [document?_of_read read (by simp), Option.map_some, ofValue_object]
          split
          · exact ⟨_, rfl⟩
          · exact ⟨_, rfl⟩
          · rename_i prevHash entryHash
            exact absurd ⟨ms, read, rfl, prevHash, entryHash⟩ (none ⟨own ms, _, _⟩)
      | bool _ | int _ | float _ | str _ | list _ =>
          exact absurd ⟨_, read, by simp, by simp⟩ known

theorem readLine?_of_reads {line : List CodePoint} {e : Entry} (h : Reads line e) :
    readLine? line = some e := by
  rw [readLine?, h.ofValue]
  rfl

theorem readLine?_passed {line : List CodePoint} (none : ∀ e, ¬ Reads line e)
    (known : ¬ Foreign line) :
    readLine? line = Option.none := by
  obtain nothing | ⟨field, missing⟩ := ofValue_passed none known
  · rw [readLine?, nothing]
    rfl
  · rw [readLine?, missing]
    rfl

theorem readLine?_of_unreadable {line : List CodePoint} (h : Json.read? line = none) :
    readLine? line = none := by
  rw [readLine?, document?, h]
  rfl

theorem known_of_unreadable {line : List CodePoint} (h : Json.read? line = none) :
    ¬ Foreign line := by
  rintro ⟨v, read, -⟩
  rw [h] at read
  cases read

/-- A line gives an entry exactly if it reads as one. -/
theorem readLine?_eq_some {line : List CodePoint} {e : Entry} :
    readLine? line = some e ↔ Reads line e := by
  refine ⟨fun found => ?_, readLine?_of_reads⟩
  by_cases foreign : Foreign line
  · rw [readLine?, foreign.ofValue] at found
    cases found
  · by_cases some : ∃ f, Reads line f
    · obtain ⟨f, reads⟩ := some
      rw [readLine?_of_reads reads] at found
      exact Option.some.inj found ▸ reads
    · rw [readLine?_passed (not_exists.1 some) foreign] at found
      cases found

theorem writtenLines_line {line : List CodePoint} (h : Text.IsLine line) :
    writtenLines line = [line] := by
  obtain ⟨c, rest, text, -⟩ := h.first
  rw [writtenLines, Text.lines_line h, List.map_singleton, Text.strip_line h, text]
  rfl

theorem reads_write {ms : List (Text × Value)} (h : (Value.object ms).WellFormed)
    {prevHash entryHash : Value} (hp : ms.lookup prevHashField = some prevHash)
    (he : ms.lookup entryHashField = some entryHash) :
    Reads (Json.write Json.spaced (.object ms)) ⟨own ms, prevHash, entryHash⟩ :=
  ⟨ms, Json.read?_write Json.spaced_plain h, rfl, hp, he⟩

/-- A line that was written for an entry is that entry, with all members in order. -/
theorem reads_line {e : Entry} (h : e.toValue.WellFormed) :
    Reads e.lineText.toList
      ⟨Json.sortedMembers (own e.record), Json.sorted e.prevHash, Json.sorted e.entryHash⟩ := by
  have distinct := (Value.wellFormed_object.1 h).1
  have prevHash := Json.lookup_sortedMembers distinct prevHashField
  have entryHash := Json.lookup_sortedMembers distinct entryHashField
  have record := Json.sortedMembers_filter isOwn distinct
  rw [Value.lookup_putMember, if_neg (by decide), Value.lookup_putMember, if_pos rfl] at prevHash
  rw [Value.lookup_putMember, if_pos rfl] at entryHash
  rw [Value.filter_putMember (by decide), Value.filter_putMember (by decide), ← own,
    ← own] at record
  rw [Entry.lineText, Json.lineText, Text.toList_ofList, record]
  exact reads_write (Json.sorted_wellFormed h) prevHash entryHash

/-- A written record is read back from its line. -/
theorem Entry.WellFormed.reads {e : Entry} (h : e.WellFormed) :
    Reads e.lineText.toList e.asRead := by
  have reads := reads_line (Entry.toValue_wellFormed h)
  rwa [sorted_str h.prevHash, sorted_str h.entryHash] at reads

theorem entriesFrom_foreign {line : List CodePoint} (h : Foreign line) (index : Nat)
    (ls : List (List CodePoint)) : entriesFrom index (line :: ls) = .error .notAnObject := by
  rw [entriesFrom, h.ofValue]
  rfl

/-- A line that does not stop the readers adds its entry, or else a breach. -/
theorem entriesFrom_cons {line : List CodePoint} (known : ¬ Foreign line) (index : Nat)
    (ls : List (List CodePoint)) :
    ∃ bs : List Breach, (bs = [] ↔ ∃ e, Reads line e) ∧ (∀ b ∈ bs, b.index = index) ∧
      entriesFrom index (line :: ls) = (entriesFrom (index + 1) ls).map fun later =>
        (bs ++ later.1, (readLine? line).toList ++ later.2) := by
  by_cases some : ∃ e, Reads line e
  · obtain ⟨e, reads⟩ := some
    refine ⟨[], ⟨fun _ => ⟨e, reads⟩, fun _ => rfl⟩, List.forall_mem_nil _, ?_⟩
    rw [entriesFrom, reads.ofValue, readLine?_of_reads reads]
    cases entriesFrom (index + 1) ls <;> rfl
  · have none := not_exists.1 some
    rw [readLine?_passed none known]
    obtain nothing | ⟨field, missing⟩ := ofValue_passed none known
    · refine ⟨[.unreadable index], by simp [some], by simp [Breach.index], ?_⟩
      rw [entriesFrom, nothing]
      cases entriesFrom (index + 1) ls <;> rfl
    · refine ⟨[.missingField index field], by simp [some], by simp [Breach.index], ?_⟩
      rw [entriesFrom, missing]
      cases entriesFrom (index + 1) ls <;> rfl

/-- One foreign line ends the reading, whatever stands before it. -/
theorem entriesFrom_stopped {ls : List (List CodePoint)} (h : ∃ line ∈ ls, Foreign line)
    (index : Nat) :
    entriesFrom index ls = .error .notAnObject := by
  induction ls generalizing index with
  | nil => simp at h
  | cons line ls ih =>
      by_cases first : Foreign line
      · exact entriesFrom_foreign first index ls
      · have later : ∃ line ∈ ls, Foreign line := by simpa [first] using h
        obtain ⟨bs, -, -, ahead⟩ := entriesFrom_cons first index ls
        rw [ahead, ih later]
        rfl

/-- Without foreign lines the reading returns the entries of the lines that read, and reports the
others. -/
theorem entriesFrom_known {ls : List (List CodePoint)} (known : ∀ line ∈ ls, ¬ Foreign line)
    (index : Nat) :
    ∃ bs, entriesFrom index ls = .ok (bs, ls.filterMap readLine?) ∧
      (bs = [] ↔ ∀ line ∈ ls, ∃ e, Reads line e) := by
  induction ls generalizing index with
  | nil => exact ⟨[], rfl, by simp⟩
  | cons line ls ih =>
      obtain ⟨first, rest⟩ := List.forall_mem_cons.1 known
      obtain ⟨own, clean, -, ahead⟩ := entriesFrom_cons first index ls
      obtain ⟨later, read, whole⟩ := ih rest (index + 1)
      refine ⟨own ++ later, ?_, ?_⟩
      · rw [ahead, read, List.filterMap_cons]
        cases readLine? line <;> rfl
      · rw [List.append_eq_nil_iff, clean, whole, List.forall_mem_cons]

/-- Lines that are entries one by one, and the entries that are read of them. -/
theorem forall₂_reads_iff {ls : List (List CodePoint)} {es : List Entry} :
    List.Forall₂ Reads ls es ↔
      (∀ line ∈ ls, ∃ e, Reads line e) ∧ ls.filterMap readLine? = es := by
  induction ls generalizing es with
  | nil => simp [eq_comm]
  | cons line ls ih =>
      constructor
      · rintro (_ | ⟨reads, all⟩)
        obtain ⟨each, read⟩ := ih.1 all
        refine ⟨List.forall_mem_cons.2 ⟨⟨_, reads⟩, each⟩, ?_⟩
        rw [List.filterMap_cons, readLine?_of_reads reads, read]
      · rintro ⟨each, rfl⟩
        obtain ⟨⟨e, reads⟩, rest⟩ := List.forall_mem_cons.1 each
        rw [List.filterMap_cons, readLine?_of_reads reads]
        exact .cons reads (ih.2 ⟨rest, rfl⟩)

theorem Reads.known {line : List CodePoint} {e : Entry} (h : Reads line e) : ¬ Foreign line := by
  obtain ⟨ms, read, -⟩ := h
  rintro ⟨v, read', -, other⟩
  rw [read] at read'
  exact other ms (Option.some.inj read').symm

theorem known_of_reads {ls : List (List CodePoint)} (each : ∀ line ∈ ls, ∃ e, Reads line e) :
    ∀ line ∈ ls, ¬ Foreign line := by
  intro line hl
  obtain ⟨e, reads⟩ := each line hl
  exact reads.known

theorem known_of_entriesFrom {ls : List (List CodePoint)} {index : Nat}
    {r : List Breach × List Entry} (h : entriesFrom index ls = .ok r) :
    ∀ line ∈ ls, ¬ Foreign line := by
  intro line hl foreign
  rw [entriesFrom_stopped ⟨line, hl, foreign⟩] at h
  cases h

/-- A log is read without a breach if and only if its lines are entries, one by one. -/
theorem entriesFrom_clean {ls : List (List CodePoint)} {index : Nat} {es : List Entry} :
    entriesFrom index ls = .ok ([], es) ↔ List.Forall₂ Reads ls es := by
  rw [forall₂_reads_iff]
  constructor
  · intro read
    obtain ⟨bs, every, whole⟩ := entriesFrom_known (known_of_entriesFrom read) index
    cases read.symm.trans every
    exact ⟨whole.1 rfl, rfl⟩
  · rintro ⟨each, rfl⟩
    obtain ⟨bs, every, whole⟩ := entriesFrom_known (known_of_reads each) index
    rw [every, whole.2 each]

/-- A text is read to its end exactly if no line is foreign; unreadable lines are passed over. -/
theorem entries_eq_ok {text : Text} {es : List Entry} :
    entries text = .ok es ↔
      (∀ line ∈ writtenLines text.toList, ¬ Foreign line) ∧
        (writtenLines text.toList).filterMap readLine? = es := by
  constructor
  · intro read
    obtain ⟨⟨bs, es⟩, found, rfl⟩ := map_eq_ok read
    have known := known_of_entriesFrom found
    obtain ⟨bs, every, -⟩ := entriesFrom_known known 0
    cases found.symm.trans every
    exact ⟨known, rfl⟩
  · rintro ⟨known, rfl⟩
    obtain ⟨bs, every, -⟩ := entriesFrom_known known 0
    rw [entries, every]
    rfl

theorem entries_of_reads {text : Text} {es : List Entry}
    (reads : List.Forall₂ Reads (writtenLines text.toList) es) : entries text = .ok es := by
  rw [entries, entriesFrom_clean.2 reads]
  rfl

theorem lastHash_of_reads {text : Text} {line : List CodePoint} {e : Entry} (h : Reads line e)
    (last : (writtenLines text.toList).getLast? = some line) : lastHash text = .ok e.entryHash := by
  obtain ⟨ms, read, -, -, entryHash⟩ := h
  simp only [lastHash, last, read, Value.need, entryHash]

/-- The hash that an append goes on from: there is no line yet, or the last one is an object that
has it. -/
theorem lastHash_cases {text : Text} {hash : Value} (h : lastHash text = .ok hash) :
    (writtenLines text.toList = [] ∧ hash = .str genesisHash) ∨
    ∃ line ms, (writtenLines text.toList).getLast? = some line ∧
      Json.read? line = some (.object ms) ∧ ms.lookup entryHashField = some hash := by
  unfold lastHash at h
  split at h
  · rename_i none
    cases h
    exact Or.inl ⟨List.getLast?_eq_none_iff.1 none, rfl⟩
  · rename_i line last
    split at h
    · cases h
    · rename_i v read
      cases v with
      | object ms =>
          cases found : ms.lookup entryHashField with
          | none =>
              rw [Value.need, found] at h
              cases h
          | some w =>
              rw [Value.need, found] at h
              cases h
              exact Or.inr ⟨line, ms, last, read, found⟩
      | null | bool _ | int _ | float _ | str _ | list _ => cases h

theorem own_names {ms : List (Text × Value)} {k : Text} (h : k ∈ Value.names (own ms)) :
    isOwn k = true := by
  obtain ⟨m, hm, rfl⟩ := List.mem_map.1 h
  exact (List.mem_filter.1 hm).2

/-- An entry as the reader of documents gives it: a record of its own members, all well-formed. -/
structure Entry.Plain (e : Entry) : Prop where
  record : (Value.object e.record).WellFormed
  names : ∀ k ∈ Value.names e.record, isOwn k = true
  prevHash : e.prevHash.WellFormed
  entryHash : e.entryHash.WellFormed

theorem Entry.Plain.toValue_wellFormed {e : Entry} (h : e.Plain) : e.toValue.WellFormed :=
  Value.putMember_wellFormed h.entryHash (Value.putMember_wellFormed h.prevHash h.record)

/-- What a line reads as keeps the two chain fields out of the record. -/
theorem Reads.plain {line : List CodePoint} {e : Entry} (h : Reads line e) : e.Plain := by
  obtain ⟨ms, read, record, prevHash, entryHash⟩ := h
  have wellFormed := Json.read?_wellFormed read
  obtain ⟨distinct, members⟩ := Value.wellFormed_object.1 wellFormed
  refine ⟨record ▸ Value.filter_wellFormed _ wellFormed, fun k hk => ?_, ?_, ?_⟩
  · exact own_names (record ▸ hk)
  · exact members _ ((Value.lookup_eq_some_iff distinct).1 prevHash)
  · exact members _ ((Value.lookup_eq_some_iff distinct).1 entryHash)

end ReleaseGate.Audit
