import ReleaseGate.Proofs.Audit.Uses

/-!
What the verifier says about the log in a file, whoever wrote it: when it reports nothing, and when
it comes to a report at all.
-/

namespace ReleaseGate.Audit

/-- The verifier reports nothing exactly if every line is an entry and the entries are a whole
chain. It comes to a report exactly if no line is a document other than an object or null, no entry
has a hash that cannot be shown, and the hash of none covers half a surrogate pair. -/
theorem verify_decides {files : Files} {path : FilePath} {text : String}
    (read : files.read path = .ok text) :
    (verify files path = .ok [] ↔
      ∃ es, List.Forall₂ Reads (writtenLines (Text.toList text)) es ∧ Whole es) ∧
    ((∃ bs, verify files path = .ok bs) ↔
      ∀ line ∈ writtenLines (Text.toList text), ¬ Foreign line ∧ ∀ e, Reads line e →
        e.Legible) := by
  simp only [verify_of_read read, lift_eq_ok, breaches_clean, breaches_report, true_and,
    List.mem_filterMap, readLine?_eq_some]
  constructor
  · rintro ⟨known, legible⟩ line hl
    exact ⟨known line hl, fun e reads => legible e ⟨line, hl, reads⟩⟩
  · intro each
    refine ⟨fun line hl => (each line hl).1, ?_⟩
    rintro e ⟨line, hl, reads⟩
    exact (each line hl).2 e reads

def heldEntry : Entry := .stamped (heldRecord []).members (.str genesisHash)

theorem heldEntry_hashed : heldEntry.Hashed := Entry.stamped_hashed (by decide +kernel)

theorem heldEntry_wellFormed : heldEntry.WellFormed :=
  ⟨heldRecord_admitted.members, ⟨genesisHash, rfl⟩, ⟨_, rfl⟩⟩

theorem heldEntry_goesOn : GoesOn (.str genesisHash) [heldEntry] := ⟨rfl, heldEntry_hashed, trivial⟩

theorem heldEntry_intact : heldEntry.Intact := intact_of_absent heldEntry_wellFormed (by decide)

def heldFiles : Files := ⟨[(["audit.jsonl"], .file heldEntry.lineString)]⟩

/-- The lines of a text that is the line of one entry. -/
theorem writtenLines_lineString {e : Entry} (h : e.Hashed) :
    writtenLines (Text.toList e.lineString) = [e.lineText.toList] := by
  rw [← h.line.1, writtenLines_line e.lineText_isLine]

theorem verify_decides_held :
    heldFiles.read ["audit.jsonl"] = .ok heldEntry.lineString ∧
      verify heldFiles ["audit.jsonl"] = .ok [] := by
  have read : heldFiles.read ["audit.jsonl"] = .ok heldEntry.lineString := by rfl
  have reads : List.Forall₂ Reads (writtenLines (Text.toList heldEntry.lineString))
      [heldEntry.asRead] := by
    rw [writtenLines_lineString heldEntry_hashed]
    exact .cons heldEntry_wellFormed.reads .nil
  have whole : Whole [heldEntry.asRead] :=
    (whole_asRead heldEntry_goesOn).2 (List.forall_mem_singleton.2 heldEntry_intact)
  exact ⟨read, (verify_decides read).1.2 ⟨_, reads, whole⟩⟩

/-- A line in ASCII, which escapes half of a surrogate pair. -/
def loneLine : String :=
  "\x7b\"prev_hash\": \"0\", \"entry_hash\": \"0\", \"x\": \"\\ud800\"\x7d"

def loneEntry : Entry := ⟨[("x", .str .firstHalf)], .str "0", .str "0"⟩

theorem loneLine_reads : Reads (Text.toList loneLine) loneEntry := by
  have document : Json.read? (Text.toList loneLine) = some (.object [(prevHashField, .str "0"),
      (entryHashField, .str "0"), ("x", .str .firstHalf)]) := by decide +kernel
  exact ⟨_, document, rfl, rfl, rfl⟩

theorem loneLine_isLine : Text.IsLine (Text.toList loneLine) where
  noLineEnd := by decide
  first := ⟨_, _, rfl, by decide⟩
  last := ⟨(Text.toList loneLine).dropLast, '\x7d', by decide, by decide⟩

theorem loneEntry_unencodable : (bound loneEntry.record loneEntry.prevHash).isEncodable =
    false := rfl

def listFiles : Files := ⟨[(["audit.jsonl"], .file "[]")]⟩

/-- A line that holds a list ends the verification in a fault, where a report was to be made. -/
theorem listLine_ends_verification :
    listFiles.read ["audit.jsonl"] = .ok "[]" ∧
      verify listFiles ["audit.jsonl"] = .error (.misfit .notAnObject) := by
  have read : listFiles.read ["audit.jsonl"] = .ok "[]" := by rfl
  have foreign : Foreign (Text.toList "[]") :=
    ⟨.list [], Json.read?_write Json.spaced_plain (v := .list []) trivial, by simp, by simp⟩
  refine ⟨read, ?_⟩
  rw [verify_of_read read, breaches_stopped ⟨Text.toList "[]", by decide, foreign⟩]
  rfl

end ReleaseGate.Audit
