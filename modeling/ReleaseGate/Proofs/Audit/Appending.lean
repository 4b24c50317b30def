import ReleaseGate.Proofs.Audit.History

/-!
Appending to a log, whoever wrote it. An append that fails changes nothing. One that returns writes
its line behind whatever the file holds. Where that ends in a line end, or in blanks behind one, the
log has one entry more. Otherwise the line runs into the last one, and neither of the two is read
any more.
-/

namespace ReleaseGate.Audit

def appending (path : FilePath) (record : Value) : ExceptT Error (StateM Files) Entry := do
  let (entry, files) ← append (← get) path record
  set files
  return entry

theorem appending_ok {files files' : Files} {path : FilePath} {record : Value} {entry : Entry}
    (h : append files path record = .ok (entry, files')) :
    (appending path record).run files = (.ok entry, files') := by
  rw [appending, run_bind_ok (run_get files), h]
  rfl

/-- An append that ends in an error leaves the files as they were. -/
theorem appending_error {files : Files} {path : FilePath} {record : Value} {error : Error}
    (h : append files path record = .error error) :
    (appending path record).run files = (.error error, files) := by
  rw [appending, run_bind_ok (run_get files), h]
  rfl

/-- A text with nothing but blanks behind its last line end. -/
def Ended (text : List CodePoint) : Prop := Text.strip (Text.openLine text) = []

/-- The written lines up to the last line end. -/
def endedLines (text : List CodePoint) : List (List CodePoint) :=
  ((Text.lines text).dropLast.map Text.strip).filter fun l => !l.isEmpty

theorem lines_open (text : List CodePoint) :
    Text.lines text = (Text.lines text).dropLast ++ [Text.openLine text] := by
  have some : Text.lines text ≠ [] := Text.splitAt_ne_nil _ _
  rw [Text.openLine, List.getLastD_eq_getLast?, List.getLast?_eq_some_getLast some,
    Option.getD_some, List.dropLast_append_getLast some]

/-- A log that was written by appends alone has ended. -/
theorem written_ended (es : List Entry) : Ended (written es) := by
  have isLine : ∀ l ∈ es.map (fun e => e.lineText.toList), Text.IsLine l :=
    List.forall_mem_map.2 fun e _ => e.lineText_isLine
  rw [Ended, Text.openLine, written, Text.lines_written isLine, List.getLastD_concat]
  rfl

theorem writtenLines_ended {text : List CodePoint} (ended : Ended text) :
    writtenLines text = endedLines text := by
  rw [writtenLines, lines_open, List.map_append, List.filter_append, List.map_singleton, ended]
  exact List.append_nil _

theorem writtenLines_open {text : List CodePoint} (running : ¬ Ended text) :
    writtenLines text = endedLines text ++ [Text.strip (Text.openLine text)] := by
  rw [writtenLines, lines_open, List.map_append, List.filter_append, List.map_singleton]
  congr 1
  simpa [Ended] using running

/-- A record written behind a text is read with its last line: the two are one line if that was
still open. -/
theorem writtenLines_append_line (text : String) {e : Entry} (h : e.Hashed) :
    writtenLines (Text.toList (text ++ (e.lineString ++ "\n") : String)) =
      endedLines (Text.toList text) ++
        [(Text.openLine (Text.toList text)).dropWhile Text.isBlank ++ e.lineText.toList] := by
  have line := e.lineText_isLine
  obtain ⟨c, rest, start, -⟩ := line.first
  have last : [(Text.openLine (Text.toList text)).dropWhile Text.isBlank ++ e.lineText.toList,
        []].filter (fun l => !l.isEmpty) =
      [(Text.openLine (Text.toList text)).dropWhile Text.isBlank ++ e.lineText.toList] := by
    simp [start]
  rw [writtenLines, toList_append_line h, Text.lines_append_line _ line, List.map_append,
    List.filter_append, List.map_cons, List.map_singleton, Text.strip_append_line _ line]
  exact congrArg (endedLines (Text.toList text) ++ ·) last

/-- The spaces between lexemes are blanks. -/
theorem not_isSpace_of_not_isBlank {c : CodePoint} (h : Text.isBlank c = false) :
    Json.isSpace c = false := by
  cases space : Json.isSpace c with
  | false => rfl
  | true =>
      simp only [Json.isSpace, Bool.or_eq_true, beq_iff_eq] at space
      obtain ((rfl | rfl) | rfl) | rfl := space <;> exact absurd h (by decide)

theorem lastHash_wellFormed {text : Text} {hash : Value} (h : lastHash text = .ok hash) :
    hash.WellFormed := by
  obtain ⟨-, rfl⟩ | ⟨line, ms, -, read, found⟩ := lastHash_cases h
  · trivial
  · obtain ⟨distinct, members⟩ := Value.wellFormed_object.1 (Json.read?_wellFormed read)
    exact members _ ((Value.lookup_eq_some_iff distinct).1 found)

/-- A log that has not ended, but can be appended to, has an object in its open line. -/
theorem openLine_object {text : Text} {hash : Value} (running : ¬ Ended text.toList)
    (last : lastHash text = .ok hash) :
    ∃ ms, Json.read? (Text.strip (Text.openLine text.toList)) = some (.object ms) := by
  have lines := writtenLines_open running
  obtain ⟨none, -⟩ | ⟨line, ms, end_, document, -⟩ := lastHash_cases last
  · rw [lines] at none
    simp at none
  · rw [lines, List.getLast?_append, List.getLast?_singleton, Option.some_or] at end_
    cases end_
    exact ⟨ms, document⟩

/-- An open line that is an object is no document any more with another line behind it. -/
theorem read?_running {line : List CodePoint} {ms : List (Text × Value)}
    (document : Json.read? (Text.strip line) = some (.object ms)) (e : Entry) :
    Json.read? (line.dropWhile Text.isBlank ++ e.lineText.toList) = none := by
  obtain ⟨blanks, shape⟩ := Text.dropWhile_blank line
  obtain ⟨c, rest, start, ink⟩ := e.lineText_isLine.first
  rw [shape, List.append_assoc]
  exact Json.read?_beyond document ⟨c, by simp [start], not_isSpace_of_not_isBlank ink⟩

section

variable {text : String} {before : List Entry} (read : entries text = .ok before) {e : Entry}
  (hashed : e.Hashed)
include read hashed

/-- Behind a text that has ended, a line is an entry of its own. -/
theorem entries_append_ended (ended : Ended (Text.toList text))
    (wellFormed : e.toValue.WellFormed) :
    entries (text ++ (e.lineString ++ "\n") : String) = .ok (before ++
      [⟨Json.sortedMembers (own e.record), Json.sorted e.prevHash, Json.sorted e.entryHash⟩]) := by
  obtain ⟨known, rfl⟩ := entries_eq_ok.1 read
  have reads := reads_line wellFormed
  have lines : writtenLines (Text.toList (text ++ (e.lineString ++ "\n") : String)) =
      writtenLines (Text.toList text) ++ [e.lineText.toList] := by
    rw [writtenLines_append_line text hashed, writtenLines_ended ended, Text.strip_eq_nil.1 ended]
    rfl
  refine entries_eq_ok.2 ⟨?_, ?_⟩
  · rw [lines]
    exact List.forall_mem_append.2 ⟨known, List.forall_mem_singleton.2 reads.known⟩
  · rw [lines, List.filterMap_append, List.filterMap_cons, readLine?_of_reads reads]
    rfl

/-- Behind a text that has not ended but can be appended to, a line runs into the last one. -/
theorem entries_append_running (running : ¬ Ended (Text.toList text)) {hash : Value}
    (last : lastHash text = .ok hash) :
    entries (text ++ (e.lineString ++ "\n") : String) =
        .ok ((endedLines (Text.toList text)).filterMap readLine?) ∧
      (endedLines (Text.toList text)).filterMap readLine? <+: before := by
  obtain ⟨known, rfl⟩ := entries_eq_ok.1 read
  have lines := writtenLines_open running
  obtain ⟨ms, document⟩ := openLine_object running last
  have glued := read?_running document e
  refine ⟨entries_eq_ok.2 ⟨?_, ?_⟩, ?_⟩
  · rw [writtenLines_append_line text hashed]
    rw [lines] at known
    exact List.forall_mem_append.2
      ⟨(List.forall_mem_append.1 known).1, List.forall_mem_singleton.2 (known_of_unreadable glued)⟩
  · rw [writtenLines_append_line text hashed, List.filterMap_append, List.filterMap_cons,
      readLine?_of_unreadable glued]
    exact List.append_nil _
  · rw [lines, List.filterMap_append]
    exact List.prefix_append _ _

end

/-- What is read of an entry that was written for a record of its own members. -/
theorem asWritten_alike {e : Entry} (h : e.Plain) :
    Entry.Alike ⟨Json.sortedMembers (own e.record), Json.sorted e.prevHash, Json.sorted e.entryHash⟩
      e := by
  rw [h.own_record]
  exact ⟨Json.sorted_alike h.record, Json.sorted_alike h.prevHash, Json.sorted_alike h.entryHash⟩

/-- An append to any log that can be read either fails and leaves all files as they were, or it
returns an entry. The log then has that entry behind those it had before if and only if the text
before had ended; otherwise it has lost the entry of its last line, and the new one is not read. -/
theorem appending_extends {files : Files} {path : FilePath} {text : String} {record : Value}
    {before : List Entry} (read : files.read path = .ok text)
    (readable : readAll files path = .ok before) (admitted : Admitted record)
    (bare : ∀ k ∈ Value.names record.members, isOwn k = true) :
    ∃ result files', (appending path record).run files = (result, files') ∧
      match result with
      | .error _ => files' = files
      | .ok entry => ∃ after, readAll files' path = .ok after ∧
          ((∃ last, after = before ++ [last] ∧ last.Alike entry) ↔ Ended (Text.toList text)) ∧
          (after <+: before ∨ Ended (Text.toList text)) := by
  rw [readAll_of_read read, lift_eq_ok] at readable
  cases last : lastHash text with
  | error fault =>
      have failed := append_of_tailFault read admitted.valid last
      exact ⟨_, files, appending_error failed, rfl⟩
  | ok hash =>
      cases bytes : (bound record.members hash).isEncodable with
      | false =>
          have failed := append_unencodable read admitted.valid last bytes
          exact ⟨_, files, appending_error failed, rfl⟩
      | true =>
          obtain ⟨e, files', appended, record, rfl, hashed, now⟩ :=
            append_encodable read admitted.valid last bytes
          refine ⟨_, files', appending_ok appended, ?_⟩
          have text' : e.entryHash.WellFormed := by
            obtain ⟨own, -, text⟩ := hashed
            rw [text]
            trivial
          have plain : e.Plain :=
            ⟨record ▸ admitted.members, record ▸ bare, lastHash_wellFormed last, text'⟩
          by_cases ended : Ended (Text.toList text)
          · have after := entries_append_ended readable hashed ended plain.toValue_wellFormed
            refine ⟨_, lift_eq_ok.2 after ▸ readAll_of_read now, ?_, Or.inr ended⟩
            exact iff_of_true ⟨_, rfl, asWritten_alike plain⟩ ended
          · obtain ⟨lost, shorter⟩ := entries_append_running readable hashed ended last
            refine ⟨_, lift_eq_ok.2 lost ▸ readAll_of_read now, ?_, Or.inl shorter⟩
            refine iff_of_false ?_ ended
            rintro ⟨last, more, -⟩
            have fewer := shorter.length_le
            rw [more, List.length_append, List.length_singleton] at fewer
            omega

theorem heldRecord_bare : ∀ k ∈ Value.names (heldRecord []).members, isOwn k = true := by decide

theorem heldRecord_bytes {hash : Value} (h : hash.isEncodable = true) :
    (bound (heldRecord []).members hash).isEncodable = true :=
  Value.putMember_isEncodable rfl h (by decide +kernel)

def endedFiles : Files := ⟨[(["audit.jsonl"], .file (heldEntry.lineString ++ "\n"))]⟩

theorem appending_extends_ended :
    readAll endedFiles ["audit.jsonl"] = .ok [heldEntry.asRead] ∧ Admitted (heldRecord []) ∧
      ∃ entry files' last,
        (appending ["audit.jsonl"] (heldRecord [])).run endedFiles = (.ok entry, files') ∧
        readAll files' ["audit.jsonl"] = .ok [heldEntry.asRead, last] ∧ last.Alike entry := by
  have read : endedFiles.read ["audit.jsonl"] = .ok (heldEntry.lineString ++ "\n") := by rfl
  have text : Text.toList (heldEntry.lineString ++ "\n" : String) = written [heldEntry] := by
    rw [← Text.plain_append_plain, ← heldEntry_hashed.line.1, Text.toList_append, written]
    simp
  have holds : Holds endedFiles ["audit.jsonl"] [heldEntry] :=
    ⟨⟨_, read, text⟩, heldEntry_goesOn, List.forall_mem_singleton.2 heldEntry_wellFormed.record⟩
  have readable : readAll endedFiles ["audit.jsonl"] = .ok [heldEntry.asRead] := readAll_holds holds
  have ended : Ended (Text.toList (heldEntry.lineString ++ "\n" : String)) := by
    rw [text]
    exact written_ended _
  obtain ⟨result, files', ran, outcome⟩ :=
    appending_extends read readable heldRecord_admitted heldRecord_bare
  obtain ⟨entry, after, appended, -⟩ := append_holds holds heldRecord_admitted.valid
    heldRecord_admitted.members (by decide +kernel)
  cases (appending_ok appended).symm.trans ran
  obtain ⟨all, reread, extended, -⟩ := outcome
  obtain ⟨last, rfl, alike⟩ := extended.2 ended
  exact ⟨readable, heldRecord_admitted, _, _, last, ran, reread, alike⟩

/-- A log whose only line has no line end loses that entry to the next append, and the new one. -/
theorem running_log_loses_entries :
    readAll heldFiles ["audit.jsonl"] = .ok [heldEntry.asRead] ∧ Admitted (heldRecord []) ∧
      (∀ k ∈ Value.names (heldRecord []).members, isOwn k = true) ∧
      ∃ entry files',
        (appending ["audit.jsonl"] (heldRecord [])).run heldFiles = (.ok entry, files') ∧
        readAll files' ["audit.jsonl"] = .ok [] := by
  have read : heldFiles.read ["audit.jsonl"] = .ok heldEntry.lineString := by rfl
  have line := heldEntry.lineText_isLine
  have text : Text.toList heldEntry.lineString = heldEntry.lineText.toList := by
    rw [← heldEntry_hashed.line.1]
  have lines := writtenLines_lineString heldEntry_hashed
  have reads := heldEntry_wellFormed.reads
  have before : entries heldEntry.lineString = .ok [heldEntry.asRead] :=
    entries_of_reads (lines.symm ▸ .cons reads .nil)
  have last : lastHash heldEntry.lineString = .ok heldEntry.asRead.entryHash :=
    lastHash_of_reads (e := heldEntry.asRead) reads (by rw [lines, List.getLast?_singleton])
  have running : ¬ Ended (Text.toList heldEntry.lineString) := by
    obtain ⟨c, rest, start, -⟩ := line.first
    rw [Ended, Text.openLine, text, Text.lines_line line, List.getLastD_cons, List.getLastD_nil,
      Text.strip_line line, start]
    exact List.cons_ne_nil c rest
  obtain ⟨e, files', appended, -, -, hashed, now⟩ :=
    append_encodable read heldRecord_admitted.valid last (heldRecord_bytes rfl)
  obtain ⟨lost, -⟩ := entries_append_running before hashed running last
  have none : endedLines (Text.toList heldEntry.lineString) = [] := by
    rw [endedLines, text, Text.lines_line line]
    rfl
  rw [none] at lost
  refine ⟨?_, heldRecord_admitted, heldRecord_bare, _, files', appending_ok appended, ?_⟩
  · rw [readAll_of_read read, lift_eq_ok, before]
  · rw [readAll_of_read now, lift_eq_ok, lost]
    rfl

end ReleaseGate.Audit
