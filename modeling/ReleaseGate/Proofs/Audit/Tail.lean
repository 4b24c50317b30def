import ReleaseGate.Proofs.Audit.Appending

/-!
What an append makes of the last line of a log. It goes on from an object that has a hash, whatever
else that object lacks, and refuses a line that is no document or an object without a hash. A
document of another kind in that place ends the append in a fault instead of a refusal, and so does
half a surrogate pair in the record or in the hash that it is to name.
-/

namespace ReleaseGate.Audit

/-- A line that an append goes on from: an object with a hash. -/
def Carries (line : List CodePoint) (hash : Value) : Prop :=
  ∃ ms, Json.read? line = some (.object ms) ∧ ms.lookup entryHashField = some hash

/-- A line that an append refuses to go on from: no document, or an object without a hash. -/
def Damaged (line : List CodePoint) : Prop :=
  Json.read? line = none ∨
    ∃ ms, Json.read? line = some (.object ms) ∧ ms.lookup entryHashField = none

/-- A line that is a document of another kind than an object. -/
def Stray (line : List CodePoint) : Prop :=
  ∃ v, Json.read? line = some v ∧ ∀ ms, v ≠ .object ms

theorem lastHash_empty {text : Text} (none : writtenLines text.toList = []) :
    lastHash text = .ok (.str genesisHash) := by
  rw [lastHash, none]
  rfl

theorem lastHash_ne_notEncodable {text : Text} :
    lastHash text ≠ .error (.misfit .notEncodable) := by
  intro h
  unfold lastHash at h
  split at h
  · cases h
  · split at h
    · cases h
    · rename_i v _
      cases v with
      | object ms => cases found : ms.lookup entryHashField <;> simp [Value.need, found] at h
      | null | bool _ | int _ | float _ | str _ | list _ => cases h

/-- The last line of a log alone decides what an append goes on from. -/
theorem lastHash_last {text : Text} {line : List CodePoint}
    (last : (writtenLines text.toList).getLast? = some line) :
    (∀ hash, lastHash text = .ok hash ↔ Carries line hash) ∧
      (lastHash text = .error .corrupt ↔ Damaged line) ∧
      (lastHash text = .error (.misfit .wrongType) ↔ Stray line) := by
  simp only [lastHash, last]
  cases read : Json.read? line with
  | none => simp [Carries, Damaged, Stray, read]
  | some v =>
      cases v with
      | object ms =>
          cases found : ms.lookup entryHashField <;>
            simp [Carries, Damaged, Stray, read, Value.need, found, -List.lookup_eq_none_iff]
      | null | bool _ | int _ | float _ | str _ | list _ =>
          simp [Carries, Damaged, Stray, read, Value.need]

section

variable {files : Files} {path : FilePath} {text : String} {record : Value}

/-- An append that returns an entry which names a hash as the one before it, and that has written
the line of this entry behind the text of the log. -/
def Extends (files : Files) (path : FilePath) (text : String) (record hash : Value) : Prop :=
  ∃ entry files' line, (appending path record).run files = (.ok entry, files') ∧
    entry.prevHash = hash ∧ entry.line = .ok line ∧ files'.read path = .ok (text ++ (line ++ "\n"))

variable (read : files.read path = .ok text) (valid : Contract.auditIssues record = .ok [])
include read valid

/-- The three ways in which an append ends. -/
theorem appending_cases :
    (∃ fault, lastHash text = .error fault ∧
      (appending path record).run files = (.error (fault.error path), files)) ∨
    (∃ hash, lastHash text = .ok hash ∧ (bound record.members hash).isEncodable = false ∧
      (appending path record).run files = (.error (.misfit .notEncodable), files)) ∨
    ∃ hash, lastHash text = .ok hash ∧ (bound record.members hash).isEncodable = true ∧
      Extends files path text record hash := by
  cases last : lastHash text with
  | error fault => exact .inl ⟨fault, rfl, appending_error (append_of_tailFault read valid last)⟩
  | ok hash =>
      right
      cases bytes : (bound record.members hash).isEncodable with
      | false =>
          exact .inl ⟨hash, rfl, bytes, appending_error (append_unencodable read valid last bytes)⟩
      | true =>
          obtain ⟨e, files', appended, -, names, hashed, now⟩ :=
            append_encodable read valid last bytes
          exact .inr ⟨hash, rfl, bytes, e, files', _, appending_ok appended, names,
            hashed.line.2, now⟩

/-- A log is extended exactly if its last line gives a hash and the record bound to it has bytes. -/
theorem extends_iff {hash : Value} :
    Extends files path text record hash ↔
      lastHash text = .ok hash ∧ (bound record.members hash).isEncodable = true := by
  obtain ⟨fault, last, ran⟩ | ⟨other, last, bytes, ran⟩ | ⟨other, last, bytes, extends_⟩ :=
    appending_cases read valid
  · refine iff_of_false ?_ ?_
    · rintro ⟨e, files', line, ran', -⟩
      cases ran.symm.trans ran'
    · rintro ⟨last', -⟩
      cases last.symm.trans last'
  · refine iff_of_false ?_ ?_
    · rintro ⟨e, files', line, ran', -⟩
      cases ran.symm.trans ran'
    · rintro ⟨last', bytes'⟩
      cases last.symm.trans last'
      exact absurd (bytes.symm.trans bytes') (by decide)
  · constructor
    · rintro ⟨e, files', line, ran, names, -⟩
      obtain ⟨e', files'', line', ran', names', -⟩ := extends_
      cases ran.symm.trans ran'
      cases names.symm.trans names'
      exact ⟨last, bytes⟩
    · rintro ⟨last', -⟩
      cases last.symm.trans last'
      exact extends_

/-- Apart from the encoding, an append is refused exactly for a fault of the last line. -/
theorem refuses_iff {fault : TailFault} (other : fault ≠ .misfit .notEncodable) :
    (appending path record).run files = (.error (fault.error path), files) ↔
      lastHash text = .error fault := by
  obtain ⟨found, last, ran⟩ | ⟨hash, last, bytes, ran⟩ |
      ⟨hash, last, bytes, e, files', line, ran, -⟩ := appending_cases read valid
  · rw [ran, last]
    constructor
    · exact fun same => congrArg Except.error
        (TailFault.error_injective path (Except.error.inj (Prod.mk.inj same).1))
    · rintro ⟨⟩
      rfl
  · rw [ran, last]
    refine iff_of_false (fun same => other ?_) nofun
    exact TailFault.error_injective path (Except.error.inj (Prod.mk.inj same).1).symm
  · rw [ran, last]
    exact iff_of_false nofun nofun

/-- An append ends for want of bytes exactly if it has a last hash to go on from, and the record has
none with that hash. -/
theorem unencodable_iff :
    (appending path record).run files = (.error (.misfit .notEncodable), files) ↔
      ∃ hash, lastHash text = .ok hash ∧ (bound record.members hash).isEncodable = false := by
  obtain ⟨fault, last, ran⟩ | ⟨hash, last, bytes, ran⟩ |
      ⟨hash, last, bytes, e, files', line, ran, -⟩ := appending_cases read valid
  · rw [ran, last]
    refine iff_of_false (fun same => ?_) nofun
    have found : fault = .misfit .notEncodable :=
      TailFault.error_injective path (Except.error.inj (Prod.mk.inj same).1)
    exact lastHash_ne_notEncodable (found ▸ last)
  · exact iff_of_true ran ⟨hash, last, bytes⟩
  · rw [ran]
    refine iff_of_false nofun ?_
    rintro ⟨hash', last', bytes'⟩
    cases last.symm.trans last'
    exact absurd (bytes.symm.trans bytes') (by decide)

/-- An append to a log without lines names the genesis hash. Otherwise the last line decides alone.
The entry names the hash of that line exactly if the line is an object that has one, and the record
has bytes with it; where it has none, the append ends in the fault that says so. The log is refused
exactly if the line is no document or an object without a hash. Any other document ends the append
in another fault. Whenever the append fails, all files are as before. -/
theorem appending_tail :
    (writtenLines (Text.toList text) = [] →
      (Extends files path text record (.str genesisHash) ↔
        (bound record.members (.str genesisHash)).isEncodable = true) ∧
      ((appending path record).run files = (.error (.misfit .notEncodable), files) ↔
        (bound record.members (.str genesisHash)).isEncodable = false)) ∧
    ∀ line, (writtenLines (Text.toList text)).getLast? = some line →
      (∀ hash, Extends files path text record hash ↔
        Carries line hash ∧ (bound record.members hash).isEncodable = true) ∧
      ((appending path record).run files = (.error (.misfit .notEncodable), files) ↔
        ∃ hash, Carries line hash ∧ (bound record.members hash).isEncodable = false) ∧
      ((appending path record).run files = (.error (.auditCorruptTail path.text), files) ↔
        Damaged line) ∧
      ((appending path record).run files = (.error (.misfit .wrongType), files) ↔ Stray line) := by
  constructor
  · intro none
    have genesis := lastHash_empty none
    rw [extends_iff read valid, unencodable_iff read valid, genesis]
    simp
  · intro line last
    obtain ⟨carries, damaged, stray⟩ := lastHash_last last
    refine ⟨fun hash => ?_, ?_, ?_, ?_⟩
    · rw [extends_iff read valid, carries]
    · simp only [unencodable_iff read valid, carries]
    · have other : TailFault.corrupt ≠ .misfit .notEncodable := nofun
      exact (refuses_iff read valid other).trans damaged
    · have other : TailFault.misfit .wrongType ≠ .misfit .notEncodable := by decide
      exact (refuses_iff read valid other).trans stray

end

/-- A log whose only line is an entry is gone on from with the hash of that entry. -/
theorem appending_tail_held :
    heldFiles.read ["audit.jsonl"] = .ok heldEntry.lineString ∧
      Contract.auditIssues (heldRecord []) = .ok [] ∧
      Extends heldFiles ["audit.jsonl"] heldEntry.lineString
        (heldRecord []) heldEntry.entryHash := by
  have read : heldFiles.read ["audit.jsonl"] = .ok heldEntry.lineString := by rfl
  have valid := heldRecord_admitted.valid
  have last : (writtenLines (Text.toList heldEntry.lineString)).getLast? =
      some heldEntry.lineText.toList := by
    rw [writtenLines_lineString heldEntry_hashed, List.getLast?_singleton]
  obtain ⟨ms, document, -, -, hash⟩ := heldEntry_wellFormed.reads
  exact ⟨read, valid, (((appending_tail read valid).2 _ last).1 _).2
    ⟨⟨ms, document, hash⟩, heldRecord_bytes rfl⟩⟩

/-- A list in the last line ends an append in a fault, where the log was to be refused. -/
theorem listLine_ends_append :
    listFiles.read ["audit.jsonl"] = .ok "[]" ∧
      Contract.auditIssues (heldRecord []) = .ok [] ∧
      (writtenLines (Text.toList "[]")).getLast? = some (Text.toList "[]") ∧
      (∀ ms, Json.read? (Text.toList "[]") ≠ some (.object ms)) ∧
      (appending ["audit.jsonl"] (heldRecord [])).run listFiles =
        (.error (.misfit .wrongType), listFiles) := by
  have read : listFiles.read ["audit.jsonl"] = .ok "[]" := by rfl
  have valid := heldRecord_admitted.valid
  have last : (writtenLines (Text.toList "[]")).getLast? = some (Text.toList "[]") := by decide
  have document : Json.read? (Text.toList "[]") = some (.list []) :=
    Json.read?_write Json.spaced_plain (v := .list []) trivial
  have stray : Stray (Text.toList "[]") := ⟨.list [], document, by simp⟩
  have fault := (lastHash_last last).2.2.2 stray
  refine ⟨read, valid, last, ?_, (refuses_iff read valid (by decide)).2 fault⟩
  rw [document]
  simp

end ReleaseGate.Audit
