import ReleaseGate.Proofs.Audit.Log
import ReleaseGate.Proofs.Steps

/-!
Any number of appends through any number of openings of one file: what the file holds after them,
and when its chain is found to be whole.
-/

namespace ReleaseGate.Audit

/-- A use of a log's file: it is opened, or a record is appended through one of its openings. -/
inductive Use where
  | reopen
  | append (record : Value)

namespace Use

def record? : Use → Option Value
  | .reopen => none
  | .append record => some record

def apply (path : FilePath) (files : Files) : Use → Except Error (List Entry × Files)
  | .reopen => do return ([], ← openLog files path)
  | .append record => do
      let (entry, files) ← Audit.append files path record
      return ([entry], files)

def run (path : FilePath) (files : Files) : List Use → Except Error (List Entry × Files)
  | [] => .ok ([], files)
  | u :: us => do
      let (es, files) ← u.apply path files
      let (later, files) ← run path files us
      return (es ++ later, files)

def records (us : List Use) : List (List (Text × Value)) :=
  (us.filterMap record?).map Value.members

end Use

theorem auditIssues_object {record : Value} (h : Contract.auditIssues record = .ok []) :
    ∃ ms, record = .object ms := by
  cases record with
  | object ms => exact ⟨ms, rfl⟩
  | null | bool _ | int _ | float _ | str _ | list _ => cases h

/-- A record that its contract admits; members of one name do not occur in documents. -/
structure Admitted (record : Value) : Prop where
  wellFormed : record.WellFormed
  valid : Contract.auditIssues record = .ok []

theorem Admitted.members {record : Value} (h : Admitted record) :
    (Value.object record.members).WellFormed := by
  obtain ⟨ms, rfl⟩ := auditIssues_object h.valid
  exact h.wellFormed

namespace Use

section

variable {path : FilePath} {us : List Use}
  (admitted : ∀ r ∈ us.filterMap record?, Admitted r)
include admitted

/-- Appends and reopenings keep the log a written chain, and only add to it. -/
theorem run_holds (encodable : ∀ r ∈ records us, (Value.object (unbound r)).isEncodable = true)
    {files : Files} {es : List Entry} (h : Holds files path es) :
    ∃ more files', run path files us = .ok (more, files') ∧ more.map Entry.record = records us ∧
      Holds files' path (es ++ more) := by
  induction us generalizing files es with
  | nil => exact ⟨[], files, rfl, rfl, by rwa [List.append_nil]⟩
  | cons u us ih =>
      cases u with
      | reopen =>
          obtain ⟨opened, ho, held⟩ := openLog_holds h
          obtain ⟨more, files', ran, same, holds⟩ := ih admitted encodable held
          refine ⟨more, files', ?_, same, holds⟩
          simp only [run, apply, ho, bind, Except.bind, pure, Except.pure, ran]
          rfl
      | append record =>
          -- The later uses go on from the entry of this record, which the file now ends in.
          obtain ⟨first, rest⟩ := List.forall_mem_cons.1 admitted
          obtain ⟨bytes, others⟩ := List.forall_mem_cons.1 encodable
          obtain ⟨e, appended, ha, own, held⟩ := append_holds h first.valid first.members bytes
          obtain ⟨more, files', ran, same, holds⟩ := ih rest others held
          refine ⟨e :: more, files', ?_, ?_, by rwa [List.append_assoc] at holds⟩
          · simp only [run, apply, ha, bind, Except.bind, pure, Except.pure, ran]
            rfl
          · rw [List.map_cons, own, same]
            rfl

/-- Uses come to an end at the first record without bytes. -/
theorem run_unencodable
    (unencodable : ∃ r ∈ records us, (Value.object (unbound r)).isEncodable = false)
    {files : Files} {es : List Entry} (h : Holds files path es) :
    run path files us = .error (.misfit .notEncodable) := by
  induction us generalizing files es with
  | nil =>
      obtain ⟨r, none, -⟩ := unencodable
      cases none
  | cons u us ih =>
      cases u with
      | reopen =>
          obtain ⟨opened, ho, held⟩ := openLog_holds h
          simp only [run, apply, ho, bind, Except.bind, pure, Except.pure,
            ih admitted unencodable held]
      | append record =>
          obtain ⟨first, rest⟩ := List.forall_mem_cons.1 admitted
          cases bytes : (Value.object (unbound record.members)).isEncodable with
          | false =>
              have distinct := (Value.wellFormed_object.1 first.members).1
              simp only [run, apply, append_holds_error h first.valid distinct bytes, bind,
                Except.bind]
          | true =>
              obtain ⟨e, appended, ha, -, held⟩ := append_holds h first.valid first.members bytes
              have later : ∃ r ∈ records us, (Value.object (unbound r)).isEncodable = false := by
                obtain ⟨r, hr, none⟩ := unencodable
                obtain rfl | hr := List.mem_cons.1 hr
                · exact absurd (bytes.symm.trans none) (by decide)
                · exact ⟨r, hr, none⟩
              simp only [run, apply, ha, bind, Except.bind, pure, Except.pure, ih rest later held]

end

end Use

theorem intact_of_absent {e : Entry} (h : e.WellFormed)
    (absent : entryHashField ∉ Value.names e.record) : e.Intact :=
  congrArg (fun text : Text => text.encoded.map Digest.sha256)
    (hashedText_own h.distinct e.prevHash absent)

/-- An entry is intact exactly if a hash among its own members, lost in reading, changes nothing. -/
theorem intact_iff {e : Entry} (h : e.WellFormed) :
    e.Intact ↔ (entryHashField ∈ Value.names e.record →
      hashOf e.asRead.record e.prevHash = hashOf e.record e.prevHash) := by
  constructor
  · exact fun intact _ => intact
  · intro unnoticed
    by_cases present : entryHashField ∈ Value.names e.record
    · exact unnoticed present
    · exact intact_of_absent h present

/-- A file that starts empty and is written by appends only, through any number of openings, has one
entry for each append, with the hash that the append returned. Its chain is found to be whole
exactly if no record brings an entry hash of its own, which is hashed with it and dropped on
reading; one that does goes unnoticed only where the digests of two different texts agree. The first
record with half a surrogate pair in it, if there is one, ends the appends: it has no hash. -/
theorem used_log_verified_iff {files : Files} {path : FilePath} (empty : files.read path = .ok "")
    {us : List Use} (admitted : ∀ r ∈ us.filterMap Use.record?, Admitted r) :
    ((∃ r ∈ Use.records us, (Value.object (unbound r)).isEncodable = false) →
      Use.run path files us = .error (.misfit .notEncodable)) ∧
    ((∀ r ∈ Use.records us, (Value.object (unbound r)).isEncodable = true) →
      ∃ entries files' read bs, Use.run path files us = .ok (entries, files') ∧
        entries.map Entry.record = Use.records us ∧
        readAll files' path = .ok read ∧ read.map Entry.entryHash = entries.map Entry.entryHash ∧
        read = entries.map Entry.asRead ∧
        verify files' path = .ok bs ∧
        (bs = [] ↔ ∀ e ∈ entries, entryHashField ∈ Value.names e.record →
          hashOf e.asRead.record e.prevHash = hashOf e.record e.prevHash) ∧
        ∀ e ∈ entries, entryHashField ∈ Value.names e.record →
          hashedText e.asRead.record e.prevHash ≠ hashedText e.record e.prevHash) := by
  refine ⟨fun unencodable => Use.run_unencodable admitted unencodable (holds_empty empty),
    fun encodable => ?_⟩
  obtain ⟨entries, files', ran, records, holds⟩ :=
    Use.run_holds admitted encodable (holds_empty empty)
  rw [List.nil_append] at holds
  obtain ⟨bs, verified, whole⟩ := verify_holds holds
  have wellFormed := holds.goesOn.wellFormed holds.records
  refine ⟨entries, files', _, bs, ran, records, readAll_holds holds, ?_, rfl, verified, ?_, ?_⟩
  · rw [List.map_map]
    rfl
  · exact whole.trans (forall₂_congr fun e he => intact_iff (wellFormed e he))
  · intro e he present
    have prevHash := str_wellFormed (wellFormed e he).prevHash
    exact hashedText_ne (wellFormed e he).record prevHash present

def blankFiles : Files := ⟨[(["audit.jsonl"], .file "")]⟩

def heldRecord (more : List (Text × Value)) : Value :=
  let before : List (Text × Value) := [("action_request_id", .str "AR-0"),
    ("adapter_results", .list []), ("approved_for_execution", .bool false), ("confidence", .int 0),
    ("dry_run", .bool false)]
  let after : List (Text × Value) := [("final_action", .str "HOLD_FOR_HUMAN"),
    ("learning_mode", .bool false), ("proposed_action", .str "HOLD_FOR_HUMAN"),
    ("run_id", .str "r"), ("schema_version", .str Contract.auditSchema),
    ("status", .str "VERIFIED"),
    ("status_transitions", .list []), ("timestamp", .str "t"),
    ("verdict_hash", .str (String.ofList (List.replicate 64 'b')))]
  .object (before ++ more ++ after)

def markedRecord : Value := heldRecord [(entryHashField, .str "x")]

theorem heldRecord_admitted : Admitted (heldRecord []) := by
  refine ⟨Value.wellFormed_object.2 ⟨by decide, ?_⟩, eq_ok_of_toOption (by decide +kernel)⟩
  simp [Value.WellFormed, Value.ItemsWellFormed]

theorem markedRecord_admitted : Admitted markedRecord := by
  refine ⟨Value.wellFormed_object.2 ⟨by decide, ?_⟩, eq_ok_of_toOption (by decide +kernel)⟩
  simp [Value.WellFormed, Value.ItemsWellFormed]

theorem used_log_verified_iff_twice :
    let us : List Use := [.append (heldRecord []), .reopen, .append markedRecord]
    blankFiles.read ["audit.jsonl"] = .ok "" ∧ (∀ r ∈ us.filterMap Use.record?, Admitted r) ∧
      (∀ r ∈ Use.records us, (Value.object (unbound r)).isEncodable = true) ∧
      ∃ entries files', Use.run ["audit.jsonl"] blankFiles us = .ok (entries, files') ∧
        entries.length = 2 ∧
        readAll files' ["audit.jsonl"] = .ok (entries.map Entry.asRead) := by
  intro us
  have empty : blankFiles.read ["audit.jsonl"] = .ok "" := by rfl
  have admitted : ∀ r ∈ us.filterMap Use.record?, Admitted r := by
    simpa [us, Use.record?] using ⟨heldRecord_admitted, markedRecord_admitted⟩
  have encodable : ∀ r ∈ Use.records us, (Value.object (unbound r)).isEncodable = true := by
    decide +kernel
  obtain ⟨entries, files', read, bs, ran, records, all, -, rfl, -⟩ :=
    (used_log_verified_iff empty admitted).2 encodable
  refine ⟨empty, admitted, encodable, entries, files', ran, ?_, all⟩
  rw [← List.length_map (f := Entry.record), records]
  rfl

/-- The hash of the marked record is not the one that a reader computes. -/
theorem markedRecord_not_intact {e : Entry} (record : e.record = markedRecord.members)
    (prevHash : e.prevHash = .str genesisHash) : ¬ e.Intact := by
  intro intact
  have mine : (bound markedRecord.members (.str genesisHash)).isEncodable = true := by
    decide +kernel
  have read : (bound (Json.sortedMembers (own markedRecord.members))
      (.str genesisHash)).isEncodable = true := by decide +kernel
  have hashes : hashOf (Json.sortedMembers (own e.record)) e.prevHash =
      hashOf e.record e.prevHash := intact
  rw [record, prevHash, hashOf_eq mine, hashOf_eq read, Except.ok.injEq] at hashes
  exact absurd hashes (by decide +kernel)

/-- A file that starts empty and takes one record with an entry hash of its own does not verify. -/
theorem markedRecord_breaks_chain :
    blankFiles.read ["audit.jsonl"] = .ok "" ∧ Admitted markedRecord ∧
      ∃ entry files', append blankFiles ["audit.jsonl"] markedRecord = .ok (entry, files') ∧
        verify files' ["audit.jsonl"] ≠ .ok [] := by
  have empty : blankFiles.read ["audit.jsonl"] = .ok "" := by rfl
  obtain ⟨entry, files', appended, record, holds⟩ := append_holds (holds_empty empty)
    markedRecord_admitted.valid markedRecord_admitted.members (by decide +kernel)
  refine ⟨empty, markedRecord_admitted, entry, files', appended, fun whole => ?_⟩
  obtain ⟨bs, verified, intact⟩ := verify_holds holds
  cases whole.symm.trans verified
  exact markedRecord_not_intact record holds.goesOn.1 (intact.1 rfl entry List.mem_cons_self)

end ReleaseGate.Audit
