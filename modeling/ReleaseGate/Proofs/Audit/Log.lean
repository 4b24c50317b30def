import ReleaseGate.Audit.Log
import ReleaseGate.Proofs.Audit.Breaches
import ReleaseGate.Proofs.Files
import ReleaseGate.Proofs.Steps

/-!
Logs in files. Opening a log that is there leaves its text alone, and an append to a file that holds
the chain of some records makes it hold the chain with one record more, unless the record has no
bytes. What such a file holds is read back, and its chain is whole where every record is hashed as
it is read.
-/

namespace ReleaseGate.Audit

/-- A file that holds well-formed records in a chain, as entries that go on from one another. -/
structure Holds (files : Files) (path : FilePath) (es : List Entry) : Prop where
  stored : ∃ text : String, files.read path = .ok text ∧ Text.toList text = written es
  goesOn : GoesOn (.str genesisHash) es
  records : ∀ e ∈ es, (Value.object e.record).WellFormed

theorem holds_empty {files : Files} {path : FilePath} (h : files.read path = .ok "") :
    Holds files path [] := ⟨⟨"", h, rfl⟩, trivial, List.forall_mem_nil _⟩

theorem logText_of_read {files : Files} {path : FilePath} {s : String}
    (h : files.read path = .ok s) : logText files path = .ok s := by
  have contains : files.contains path = .ok true := by
    rw [Files.contains, Files.read_eq_ok.1 h]
    rfl
  rw [logText, contains]
  exact h

theorem lift_eq_ok {α : Type} {r : Except Misfit α} {a : α} : Misfit.lift r = .ok a ↔ r = .ok a :=
  mapError_eq_ok

theorem readAll_of_read {files : Files} {path : FilePath} {text : String}
    (h : files.read path = .ok text) : readAll files path = Misfit.lift (entries text) := by
  rw [readAll, logText_of_read h]
  rfl

theorem verify_of_read {files : Files} {path : FilePath} {text : String}
    (h : files.read path = .ok text) : verify files path = Misfit.lift (breaches text) := by
  rw [verify, logText_of_read h]
  rfl

theorem openLog_of_read {files : Files} {path : FilePath} {s : String}
    (h : files.read path = .ok s) :
    ∃ files', openLog files path = .ok files' ∧ Files.SameFiles files files' := by
  obtain ⟨made, hm⟩ := Files.makeDirectory_parent h
  have same := Files.makeDirectory_sameFiles hm
  have contains : made.contains path = .ok true := by
    rw [Files.contains, Files.read_eq_ok.1 (same.read h)]
    rfl
  refine ⟨made, ?_, same⟩
  simp only [openLog, hm, contains, bind, Except.bind, pure, Except.pure, if_true]
  rfl

/-- Opening a log again changes nothing in it. -/
theorem openLog_holds {files : Files} {path : FilePath} {es : List Entry}
    (h : Holds files path es) :
    ∃ files', openLog files path = .ok files' ∧ Holds files' path es := by
  obtain ⟨text, read, written⟩ := h.stored
  obtain ⟨files', opened, same⟩ := openLog_of_read read
  exact ⟨files', opened, ⟨text, same.read read, written⟩, h.goesOn, h.records⟩

theorem checkRecord_valid {record : Value} (valid : Contract.auditIssues record = .ok []) :
    checkRecord record = .ok () := by
  rw [checkRecord, valid]

def TailFault.error (path : FilePath) : TailFault → Error
  | .corrupt => .auditCorruptTail path.text
  | .misfit m => .misfit m

theorem TailFault.error_injective (path : FilePath) :
    Function.Injective (TailFault.error path) := by
  intro fault other same
  cases fault with
  | corrupt =>
      cases other with
      | corrupt => rfl
      | misfit m => cases same
  | misfit m =>
      cases other with
      | corrupt => cases same
      | misfit n => exact congrArg TailFault.misfit (Error.misfit.inj same)

section

variable {files : Files} {path : FilePath} {text : String} {record : Value}
  (read : files.read path = .ok text) (valid : Contract.auditIssues record = .ok [])
include read valid

theorem append_of_tailFault {fault : TailFault} (last : lastHash text = .error fault) :
    append files path record = .error (fault.error path) := by
  rw [append, checkRecord_valid valid, logText_of_read read]
  cases fault <;> simp only [bind, Except.bind, mapError_ok, last] <;> rfl

/-- A record without bytes has no entry, and nothing is written. -/
theorem append_unencodable {hash : Value} (last : lastHash text = .ok hash)
    (h : (bound record.members hash).isEncodable = false) :
    append files path record = .error (.misfit .notEncodable) := by
  have unhashed : Entry.following record.members hash = .error .notEncodable := by
    rw [Entry.following, hashOf_error h]
    rfl
  rw [append, checkRecord_valid valid, logText_of_read read]
  simp only [bind, Except.bind, mapError_ok, last, pure, Except.pure, unhashed]
  rfl

/-- An append that can go on from a last hash writes one line behind the text of the log. -/
theorem append_encodable {hash : Value} (last : lastHash text = .ok hash)
    (h : (bound record.members hash).isEncodable = true) :
    ∃ e files', append files path record = .ok (e, files') ∧ e.record = record.members ∧
      e.prevHash = hash ∧ e.Hashed ∧ files'.read path = .ok (text ++ (e.lineString ++ "\n")) := by
  have hashed := Entry.stamped_hashed h
  have following : Entry.following record.members hash = .ok (.stamped record.members hash) :=
    Entry.following_eq_ok.2 ⟨rfl, rfl, hashed⟩
  obtain ⟨files', appended, now⟩ :=
    Files.append_read read ((Entry.stamped record.members hash).lineString ++ "\n")
  refine ⟨_, files', ?_, rfl, rfl, hashed, now⟩
  rw [append, checkRecord_valid valid, logText_of_read read]
  simp only [bind, Except.bind, mapError_ok, last, pure, Except.pure, Misfit.lift, following,
    hashed.line.2, appended]

end

theorem toList_append_line {text : String} {e : Entry} (h : e.Hashed) :
    Text.toList (text ++ (e.lineString ++ "\n") : String) =
      Text.toList text ++ (e.lineText.toList ++ [.char '\n']) := by
  rw [h.line.1, ← Text.plain_append_plain, ← Text.plain_append_plain, Text.toList_append,
    Text.toList_append]
  rfl

section

variable {files : Files} {path : FilePath} {es : List Entry} (h : Holds files path es)
include h

theorem lastHash_holds {text : String} (written : Text.toList text = written es) :
    lastHash text = .ok (tailHash (.str genesisHash) es) :=
  lastHash_written (h.goesOn.wellFormed h.records) written

/-- An admitted record whose text has bytes extends a written chain by its entry. -/
theorem append_holds {record : Value} (valid : Contract.auditIssues record = .ok [])
    (wellFormed : (Value.object record.members).WellFormed)
    (encodable : (Value.object (unbound record.members)).isEncodable = true) :
    ∃ e files', append files path record = .ok (e, files') ∧ e.record = record.members ∧
      Holds files' path (es ++ [e]) := by
  obtain ⟨text, read, written⟩ := h.stored
  obtain ⟨s, tail⟩ := h.goesOn.tail_string
  have bytes : (bound record.members (tailHash (.str genesisHash) es)).isEncodable = true := by
    rw [bound_isEncodable (Value.wellFormed_object.1 wellFormed).1, tail, encodable]
    rfl
  obtain ⟨e, files', appended, same, names, hashed, now⟩ :=
    append_encodable read valid (lastHash_holds h written) bytes
  refine ⟨e, files', appended, same, ⟨_, now, ?_⟩, ?_, ?_⟩
  · rw [toList_append_line hashed, written, written_append]
    simp [Audit.written]
  · exact goesOn_append.2 ⟨h.goesOn, names, hashed, trivial⟩
  · exact List.forall_mem_append.2 ⟨h.records, List.forall_mem_singleton.2 (same ▸ wellFormed)⟩

/-- An admitted record with a lone surrogate is refused: its text has no bytes to hash. -/
theorem append_holds_error {record : Value} (valid : Contract.auditIssues record = .ok [])
    (distinct : (Value.names record.members).Nodup)
    (unencodable : (Value.object (unbound record.members)).isEncodable = false) :
    append files path record = .error (.misfit .notEncodable) := by
  obtain ⟨text, read, written⟩ := h.stored
  refine append_unencodable read valid (lastHash_holds h written) ?_
  rw [bound_isEncodable distinct, unencodable, Bool.and_false]

theorem readAll_holds : readAll files path = .ok (es.map Entry.asRead) := by
  obtain ⟨text, read, written⟩ := h.stored
  rw [readAll_of_read read, lift_eq_ok, entries_written (h.goesOn.wellFormed h.records) written]

/-- A log that was only appended to is verified, and is clean exactly if every entry is intact. -/
theorem verify_holds : ∃ bs, verify files path = .ok bs ∧ (bs = [] ↔ ∀ e ∈ es, e.Intact) := by
  obtain ⟨text, read, written⟩ := h.stored
  obtain ⟨bs, hbs, intact⟩ := breaches_written h.goesOn h.records written
  refine ⟨bs, ?_, intact⟩
  rw [verify_of_read read, lift_eq_ok, hbs]

end

end ReleaseGate.Audit
