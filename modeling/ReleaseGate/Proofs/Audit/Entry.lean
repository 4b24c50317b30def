import ReleaseGate.Audit.Chain
import ReleaseGate.Proofs.Json.Encodable
import ReleaseGate.Proofs.Json.Printable
import ReleaseGate.Proofs.Steps
import ReleaseGate.Proofs.Text.Lines

/-!
Entries as they are written and as they are read. A reader meets an entry with its members in order
and without the two members that the log sets. The hash of an entry covers the record as it was
handed in; it is the hash of the entry that is read wherever the record brings no entry hash of its
own, and otherwise the two cover different texts. A record has a hash only if there is no half of a
surrogate pair in it.
-/

namespace ReleaseGate.Audit

def isOwn (k : Text) : Bool := k ≠ prevHashField ∧ k ≠ entryHashField

/-- The members of a record that a reader meets in it. -/
def own (record : List (Text × Value)) : List (Text × Value) := record.filter fun m => isOwn m.1

/-- The members of a record whose place in an entry nothing else takes. -/
def unbound (record : List (Text × Value)) : List (Text × Value) :=
  record.filter fun m => m.1 != prevHashField

def bound (record : List (Text × Value)) (prevHash : Value) : Value :=
  .object (putMember prevHashField prevHash record)

/-- The text that the hash of a record covers. -/
def hashedText (record : List (Text × Value)) (prevHash : Value) : Text :=
  Json.lineText (bound record prevHash)

def hashedBytes (record : List (Text × Value)) (prevHash : Value) : List UInt8 :=
  Json.utf8Bytes (Json.write Json.spaced (Json.sorted (bound record prevHash)))

section

variable {record : List (Text × Value)} {prevHash : Value}

theorem hashOf_ok {s : String} (text : hashedText record prevHash = s) :
    hashOf record prevHash = .ok (Digest.sha256 s) :=
  congrArg (fun t => t.encoded.map Digest.sha256) text

theorem hashOf_eq_ok {hash : String} :
    hashOf record prevHash = .ok hash ↔
      ∃ s : String, hashedText record prevHash = s ∧ hash = Digest.sha256 s := by
  constructor
  · intro h
    obtain ⟨s, encoded, rfl⟩ := map_eq_ok h
    exact ⟨s, Text.encoded_eq_ok.1 encoded, rfl⟩
  · rintro ⟨s, text, rfl⟩
    exact hashOf_ok text

/-- A record with a lone surrogate has no hash: its text has no bytes. -/
theorem hashOf_error (h : (bound record prevHash).isEncodable = false) :
    hashOf record prevHash = .error .notEncodable := by
  rw [← Json.lineText_isString] at h
  exact congrArg (Except.map Digest.sha256) (Text.encoded_error h)

theorem hashOf_eq (h : (bound record prevHash).isEncodable = true) :
    hashOf record prevHash = .ok (Digest.hexDigest (hashedBytes record prevHash)) := by
  refine Json.digest_ofList ?_
  rwa [Json.write_isChar Json.spaced_plain, Json.sorted_isEncodable]

/-- There is a hash exactly for the records that have bytes. -/
theorem hashOf_isOk_iff :
    (∃ hash, hashOf record prevHash = .ok hash) ↔ (bound record prevHash).isEncodable = true := by
  refine ⟨fun ⟨hash, hashed⟩ => ?_, fun h => ⟨_, hashOf_eq h⟩⟩
  obtain ⟨s, text, -⟩ := hashOf_eq_ok.1 hashed
  rw [← Json.lineText_isString]
  exact Text.isString_iff.2 ⟨s, text⟩

/-- A previous hash that the record brings is not part of the text, since the entry has its own. -/
theorem bound_isEncodable (distinct : (Value.names record).Nodup) (prevHash : Value) :
    (bound record prevHash).isEncodable =
      (prevHash.isEncodable && (Value.object (unbound record)).isEncodable) :=
  Value.putMember_isEncodable_eq rfl prevHash distinct

end

namespace Entry

variable {e : Entry}

structure WellFormed (e : Entry) : Prop where
  record : (Value.object e.record).WellFormed
  prevHash : ∃ s, e.prevHash = .str s
  entryHash : ∃ s, e.entryHash = .str s

def asRead (e : Entry) : Entry := { e with record := Json.sortedMembers (own e.record) }

/-- An entry whose hash is its own. -/
def Hashed (e : Entry) : Prop :=
  ∃ hash : String, e.computedHash = .ok hash ∧ e.entryHash = .str hash

def stamped (record : List (Text × Value)) (prevHash : Value) : Entry :=
  ⟨record, prevHash, .str (Digest.hexDigest (hashedBytes record prevHash))⟩

def lineText (e : Entry) : Text := Json.lineText e.toValue

def lineString (e : Entry) : String := e.lineText.string?.getD ""

/-- Stamping gives a record its own hash, where it has one. -/
theorem stamped_hashed {record : List (Text × Value)} {prevHash : Value}
    (h : (bound record prevHash).isEncodable = true) : (stamped record prevHash).Hashed :=
  ⟨_, hashOf_eq h, rfl⟩

theorem Hashed.text (h : e.Hashed) : ∃ s, e.entryHash = .str s := by
  obtain ⟨hash, -, own⟩ := h
  exact ⟨hash, own⟩

theorem Hashed.isEncodable (h : e.Hashed) : (bound e.record e.prevHash).isEncodable = true := by
  obtain ⟨hash, computed, -⟩ := h
  exact hashOf_isOk_iff.1 ⟨hash, computed⟩

/-- An entry goes on from a hash if it names that hash and has its own. -/
theorem following_eq_ok {record : List (Text × Value)} {prevHash : Value} :
    following record prevHash = .ok e ↔ e.record = record ∧ e.prevHash = prevHash ∧ e.Hashed := by
  constructor
  · intro h
    obtain ⟨hash, computed, rfl⟩ := map_eq_ok h
    exact ⟨rfl, rfl, hash, computed, rfl⟩
  · rintro ⟨rfl, rfl, hash, computed, own⟩
    have stands : e = ⟨e.record, e.prevHash, .str hash⟩ := by rw [← own]
    rw [following, show hashOf e.record e.prevHash = .ok hash from computed, stands]
    rfl

/-- An entry with a hash of its own has bytes, and so has its line. -/
theorem Hashed.line (h : e.Hashed) :
    e.lineText = e.lineString ∧ e.line = .ok e.lineString := by
  have text : e.lineText.isString = true := by
    have record := h.isEncodable
    obtain ⟨hash, -, own⟩ := h
    rw [lineText, Json.lineText_isString]
    refine Value.putMember_isEncodable rfl ?_ record
    rw [own]
    rfl
  obtain ⟨s, plain⟩ := Text.isString_iff.1 text
  have same : e.lineString = s := by rw [lineString, plain]; rfl
  exact ⟨same ▸ plain, Text.encoded_eq_ok.2 (same ▸ plain)⟩

theorem WellFormed.distinct (h : e.WellFormed) : (Value.names e.record).Nodup :=
  (Value.wellFormed_object.1 h.record).1

end Entry

theorem str_wellFormed {v : Value} (h : ∃ s, v = .str s) : v.WellFormed := by
  obtain ⟨s, rfl⟩ := h
  trivial

theorem sorted_str {v : Value} (h : ∃ s, v = .str s) : Json.sorted v = v := by
  obtain ⟨s, rfl⟩ := h
  rfl

/-- The text of an object is a line. -/
theorem write_isLine (ms : List (Text × Value)) :
    Text.IsLine (Json.write Json.spaced (.object ms)) := by
  have printable := Json.write_printable Json.spaced_plain (.object ms)
  obtain ⟨inner, text⟩ := Json.write_object Json.spaced ms
  refine ⟨fun c hc => ⟨?_, ?_⟩, ⟨_, _, text, by decide⟩, ⟨'\x7b' :: inner, _, text, by decide⟩⟩
  all_goals
    rintro rfl
    exact printable _ hc (by decide)

namespace Entry

variable {e : Entry}

theorem toValue_wellFormed (h : e.WellFormed) : e.toValue.WellFormed :=
  Value.putMember_wellFormed (str_wellFormed h.entryHash)
    (Value.putMember_wellFormed (str_wellFormed h.prevHash) h.record)

/-- A record is written on one line, with no blank at either end. -/
theorem lineText_isLine (e : Entry) : Text.IsLine e.lineText.toList := by
  rw [lineText, Json.lineText, Text.toList_ofList, toValue, Json.sorted]
  exact write_isLine _

end Entry

theorem not_own {k : Text} (hk : isOwn k = false) (record : List (Text × Value)) :
    k ∉ Value.names (Json.sortedMembers (own record)) := by
  rw [Json.mem_names_sortedMembers]
  intro h
  obtain ⟨m, hm, rfl⟩ := List.mem_map.1 h
  have kept := (List.mem_filter.1 hm).2
  rw [hk] at kept
  cases kept

section

variable {record : List (Text × Value)}

/-- A record without an entry hash of its own is hashed as it is read. -/
theorem hashedText_own (distinct : (Value.names record).Nodup) (prevHash : Value)
    (absent : entryHashField ∉ Value.names record) :
    hashedText (Json.sortedMembers (own record)) prevHash = hashedText record prevHash := by
  have others : record.filter (fun m => m.1 != prevHashField) = own record := by
    refine List.filter_congr fun m hm => ?_
    have name : m.1 ≠ entryHashField := fun same => absent (same ▸ List.mem_map_of_mem hm)
    rw [Bool.eq_iff_iff]
    simp [isOwn, name]
  -- Both texts are of the record's own members and the previous hash, in another order each.
  have mine : (Value.names (own record)).Nodup := distinct.sublist (List.filter_sublist.map _)
  have written := (Value.putMember_perm prevHashField prevHash distinct).map Json.sortedMember
  rw [others] at written
  have reading : ((Json.sortedMembers (own record) ++ [(prevHashField, prevHash)]).map
      Json.sortedMember).Perm
        (((prevHashField, prevHash) :: own record).map Json.sortedMember) := by
    refine (List.perm_append_comm.map _).trans ?_
    rw [List.singleton_append, List.map_cons, List.map_cons]
    refine List.Perm.cons _ (((Json.sortedMembers_perm _).map _).trans ?_)
    rw [List.map_map]
    refine List.Perm.of_eq (List.map_congr_left fun m _ => ?_)
    simp [Json.sortedMember, Json.sorted_sorted]
  have same := Json.sortedMembers_congr (reading.trans written.symm) (by
    rw [← Value.putMember_new (not_own (by decide) record)]
    exact Value.names_putMember_nodup (Json.names_sortedMembers_nodup mine))
  rw [hashedText, hashedText, Json.lineText, Json.lineText, bound, bound, Json.sorted, Json.sorted,
    Value.putMember_new (not_own (by decide) record), same]

/-- An entry hash that a record brings is hashed with it, but never read. -/
theorem hashedText_ne (h : (Value.object record).WellFormed) {prevHash : Value}
    (hp : prevHash.WellFormed) (present : entryHashField ∈ Value.names record) :
    hashedText (Json.sortedMembers (own record)) prevHash ≠ hashedText record prevHash := by
  have kept : (Value.object (own record)).WellFormed := Value.filter_wellFormed _ h
  have sortedKept : (Value.object (Json.sortedMembers (own record))).WellFormed :=
    Json.sorted_wellFormed kept
  intro same
  have values := Json.sorted_eq_of_lineText (Value.putMember_wellFormed hp sortedKept)
    (Value.putMember_wellFormed hp h) same
  simp only [Json.sorted, Value.object.injEq] at values
  have mine : entryHashField ∈ Value.names (putMember prevHashField prevHash record) :=
    Value.mem_names_putMember.2 (Or.inr present)
  rw [← Json.mem_names_sortedMembers, ← values, Json.mem_names_sortedMembers,
    Value.mem_names_putMember] at mine
  exact mine.elim (by decide) (not_own (by decide) record)

/-- What a reader meets of a record that has bytes has bytes. -/
theorem bound_own_isEncodable (distinct : (Value.names record).Nodup) {prevHash : Value}
    (h : (bound record prevHash).isEncodable = true) :
    (bound (Json.sortedMembers (own record)) prevHash).isEncodable = true := by
  rw [bound_isEncodable distinct, Bool.and_eq_true_iff] at h
  have fewer : own record ⊆ unbound record := by
    intro m hm
    obtain ⟨there, kept⟩ := List.mem_filter.1 hm
    simp only [isOwn, decide_eq_true_eq] at kept
    exact List.mem_filter.2 ⟨there, bne_iff_ne.2 kept.1⟩
  have kept := Json.sorted_isEncodable (.object (own record))
  rw [Value.subset_isEncodable fewer h.2] at kept
  exact Value.putMember_isEncodable rfl h.1 kept

end

end ReleaseGate.Audit
