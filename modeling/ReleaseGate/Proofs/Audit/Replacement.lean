import Mathlib.Data.Set.Function
import ReleaseGate.Proofs.Audit.History

/-!
One line of a log that verified, replaced by another line. The log verifies again only if the new
line says what the old one said, or is the last one and goes on from the line before it with a hash
of its own. Otherwise the report names the entry of that line or the one behind it: the entries
before have nothing to do with it, and the later ones go on from one another as before. There is no
report where the new line is an entry whose hash would cover half a surrogate pair.
-/

namespace ReleaseGate.Audit

open Value (same_str_iff)

theorem hashBreach_hashed {e : Entry} (h : e.Hashed) (index : Nat) :
    hashBreach index e = .ok [] := by
  obtain ⟨hash, computed, own⟩ := h
  rw [hashBreach, computed, own]
  exact if_pos (same_str_iff.2 rfl)

theorem linkBreach_linked {e : Entry} {previous : Value} (text : ∃ s, previous = .str s)
    (h : e.prevHash = previous) (index : Nat) : linkBreach index previous e = .ok [] := by
  obtain ⟨s, rfl⟩ := text
  rw [linkBreach, if_pos (same_str_iff.2 h)]
  rfl

theorem hashBreach_index {e : Entry} {index : Nat} {bs : List Breach}
    (h : hashBreach index e = .ok bs) : ∀ b ∈ bs, b.index = index := by
  obtain ⟨hash, -, more⟩ := bind_eq_ok h
  split at more
  · cases more
    exact List.forall_mem_nil _
  · obtain ⟨s, -, made⟩ := bind_eq_ok more
    cases made
    exact List.forall_mem_singleton.2 rfl

theorem linkBreach_index {e : Entry} {previous : Value} {index : Nat} {bs : List Breach}
    (h : linkBreach index previous e = .ok bs) : ∀ b ∈ bs, b.index = index := by
  unfold linkBreach at h
  split at h
  · cases h
    exact List.forall_mem_nil _
  · obtain ⟨s, -, more⟩ := bind_eq_ok h
    obtain ⟨t, -, made⟩ := bind_eq_ok more
    cases made
    exact List.forall_mem_singleton.2 rfl

theorem laterBreaches_cons {e : Entry} {es : List Entry} {previous : Value} {index : Nat}
    {bs : List Breach} (h : laterBreaches index previous (e :: es) = .ok bs) :
    ∃ own link later, hashBreach index e = .ok own ∧ linkBreach index previous e = .ok link ∧
      laterBreaches (index + 1) e.entryHash es = .ok later ∧ bs = own ++ link ++ later := by
  rw [laterBreaches] at h
  obtain ⟨own, hown, more⟩ := bind_eq_ok h
  obtain ⟨link, hlink, more⟩ := bind_eq_ok more
  obtain ⟨later, hlater, made⟩ := bind_eq_ok more
  cases made
  exact ⟨own, link, later, hown, hlink, hlater, rfl⟩

/-- Entries that go on from a hash breach nothing before those that stand behind them. -/
theorem laterBreaches_append {es : List Entry} {previous : Value} (text : ∃ s, previous = .str s)
    (h : GoesOn previous es) (fs : List Entry) (index : Nat) :
    laterBreaches index previous (es ++ fs) =
      laterBreaches (index + es.length) (tailHash previous es) fs := by
  induction es generalizing previous index with
  | nil => rfl
  | cons e es ih =>
      obtain ⟨names, own, rest⟩ := h
      rw [List.cons_append, laterBreaches, hashBreach_hashed own, linkBreach_linked text names,
        tailHash_cons, List.length_cons, Nat.add_comm es.length 1, ← Nat.add_assoc,
        ← ih own.text rest (index + 1)]
      cases laterBreaches (index + 1) e.entryHash (es ++ fs) <;> rfl

/-- An untouched rest of a chain is passed in silence. -/
theorem laterBreaches_quiet {e : Entry} {es : List Entry} (own : e.Hashed)
    (h : GoesOn e.entryHash es) (index : Nat) : laterBreaches index e.entryHash es = .ok [] := by
  have all := laterBreaches_append own.text h [] index
  rwa [List.append_nil] at all

/-- Entries that go on from one another can only breach the chain at the first of them. -/
theorem laterBreaches_index {es : List Entry} {previous other : Value} (h : GoesOn previous es)
    {index : Nat} {bs : List Breach} (found : laterBreaches index other es = .ok bs) :
    ∀ b ∈ bs, b.index = index := by
  cases es with
  | nil =>
      cases found
      exact List.forall_mem_nil _
  | cons e es =>
      obtain ⟨-, own, rest⟩ := h
      obtain ⟨none, link, later, hnone, hlink, hlater, rfl⟩ := laterBreaches_cons found
      cases (hashBreach_hashed own index).symm.trans hnone
      cases (laterBreaches_quiet own rest (index + 1)).symm.trans hlater
      rw [List.nil_append, List.append_nil]
      exact linkBreach_index hlink

theorem chainBreaches_eq_ok {e : Entry} {es : List Entry} {bs : List Breach}
    (h : chainBreaches (e :: es) = .ok bs) :
    ∃ first own later, (∀ b ∈ first, b.index = 0) ∧ (e.prevHash = .str genesisHash → first = []) ∧
      hashBreach 0 e = .ok own ∧ laterBreaches 1 e.entryHash es = .ok later ∧
      bs = first ++ own ++ later := by
  rw [chainBreaches] at h
  split at h
  · obtain ⟨first, none, more⟩ := bind_eq_ok h
    obtain ⟨own, hown, more⟩ := bind_eq_ok more
    obtain ⟨later, hlater, made⟩ := bind_eq_ok more
    cases none
    cases made
    exact ⟨[], own, later, List.forall_mem_nil _, fun _ => rfl, hown, hlater, rfl⟩
  · rename_i other
    obtain ⟨s, -, more⟩ := bind_eq_ok h
    obtain ⟨first, one, more⟩ := bind_eq_ok more
    obtain ⟨own, hown, more⟩ := bind_eq_ok more
    obtain ⟨later, hlater, made⟩ := bind_eq_ok more
    cases one
    cases made
    exact ⟨_, own, later, List.forall_mem_singleton.2 rfl, fun begins =>
      absurd (same_str_iff.2 begins) other, hown, hlater, rfl⟩

/-- Behind a whole chain an entry is reported at its own place, and what follows it after that. -/
theorem chainBreaches_append {es fs : List Entry} {f : Entry} {bs : List Breach} (whole : Whole es)
    (found : chainBreaches (es ++ f :: fs) = .ok bs) :
    ∃ own later, (∀ b ∈ own, b.index = es.length) ∧
      laterBreaches (es.length + 1) f.entryHash fs = .ok later ∧ bs = own ++ later := by
  cases es with
  | nil =>
      obtain ⟨first, own, later, start, -, hown, hlater, rfl⟩ := chainBreaches_eq_ok found
      exact ⟨first ++ own, later, List.forall_mem_append.2 ⟨start, hashBreach_index hown⟩,
        hlater, rfl⟩
  | cons e es =>
      obtain ⟨names, hashed, rest⟩ := whole_iff_goesOn.1 whole
      rw [List.cons_append] at found
      obtain ⟨first, none, behind, -, begins, hnone, hbehind, rfl⟩ := chainBreaches_eq_ok found
      cases begins names
      cases (hashBreach_hashed hashed 0).symm.trans hnone
      rw [laterBreaches_append hashed.text rest] at hbehind
      obtain ⟨own, link, later, hown, hlink, hlater, rfl⟩ := laterBreaches_cons hbehind
      rw [Nat.add_comm 1] at hown hlink hlater
      refine ⟨own ++ link, later, ?_, hlater, rfl⟩
      exact List.forall_mem_append.2 ⟨hashBreach_index hown, linkBreach_index hlink⟩

/-- Behind a whole chain an entry without bytes ends the report before it is made. -/
theorem chainBreaches_unencodable {es fs : List Entry} {f : Entry} (whole : Whole es)
    (shown : Showable f.prevHash) (h : (bound f.record f.prevHash).isEncodable = false) :
    chainBreaches (es ++ f :: fs) = .error .notEncodable := by
  cases es with
  | nil =>
      obtain ⟨text, htext⟩ := shown_ok shown
      rw [List.nil_append, chainBreaches_cons htext, hashBreach_unencodable 0 h]
      rfl
  | cons e es =>
      obtain ⟨names, own, rest⟩ := whole_iff_goesOn.1 whole
      obtain ⟨text, htext⟩ := shown_ok (Or.inl ⟨genesisHash, names⟩)
      rw [List.cons_append, chainBreaches_cons htext, hashBreach_hashed own,
        laterBreaches_append own.text rest, laterBreaches, hashBreach_unencodable _ h]
      rfl

/-- The lines of a list that are not blank, without the blanks at their ends. -/
def inked (ls : List (List CodePoint)) : List (List CodePoint) :=
  (ls.map Text.strip).filter fun l => !l.isEmpty

theorem inked_append (ls ms : List (List CodePoint)) : inked (ls ++ ms) = inked ls ++ inked ms := by
  rw [inked, List.map_append, List.filter_append]
  rfl

/-- Two texts with the same lines but for one, which is not blank in either of them. -/
structure Replaced (before : List (List CodePoint)) (l l' : List CodePoint)
    (after : List (List CodePoint))
    (text text' : List CodePoint) : Prop where
  lines : Text.lines text = before ++ l :: after
  lines' : Text.lines text' = before ++ l' :: after
  ink : Text.strip l ≠ []
  ink' : Text.strip l' ≠ []

/-- A line with ink on it is the line the verification sees at its place. -/
theorem writtenLines_split {text : List CodePoint} {before after : List (List CodePoint)}
    {l : List CodePoint}
    (lines : Text.lines text = before ++ l :: after) (ink : Text.strip l ≠ []) :
    writtenLines text = inked before ++ Text.strip l :: inked after := by
  have own : inked [l] = [Text.strip l] := by simp [inked, ink]
  rw [writtenLines, lines, ← inked, inked_append, ← List.singleton_append, inked_append, own]
  rfl

/-- Lines that are entries add no breach of their own to what the lines behind them add. -/
theorem entriesFrom_append {ls : List (List CodePoint)} {es : List Entry}
    (reads : List.Forall₂ Reads ls es)
    (ms : List (List CodePoint)) (index : Nat) :
    entriesFrom index (ls ++ ms) = (entriesFrom (index + ls.length) ms).map fun later =>
      (later.1, es ++ later.2) := by
  induction reads generalizing index with
  | nil => exact (congrFun Except.map_id (entriesFrom index ms)).symm
  | @cons line e ls es first _ ih =>
      obtain ⟨bs, clean, -, ahead⟩ := entriesFrom_cons first.known index (ls ++ ms)
      rw [clean.2 ⟨e, first⟩, readLine?_of_reads first, ih] at ahead
      rw [List.cons_append, ahead, List.length_cons, Nat.add_comm ls.length 1, ← Nat.add_assoc]
      cases entriesFrom (index + 1 + ls.length) ms <;> rfl

/-- A line between entries is reported at its own place if it is none. -/
theorem entriesFrom_replaced {ls ms : List (List CodePoint)} {es fs : List Entry}
    {line : List CodePoint}
    (reads : List.Forall₂ Reads ls es) (behind : List.Forall₂ Reads ms fs)
    (known : ¬ Foreign line) :
    ∃ bs, (∀ b ∈ bs, b.index = ls.length) ∧
      entriesFrom 0 (ls ++ line :: ms) = .ok (bs, es ++ ((readLine? line).toList ++ fs)) := by
  obtain ⟨bs, -, placed, ahead⟩ := entriesFrom_cons known ls.length ms
  refine ⟨bs, placed, ?_⟩
  rw [entriesFrom_append reads, Nat.zero_add, ahead, entriesFrom_clean.2 behind]
  simp [Except.map]

/-- The texts that the hashes of lines cover, as far as these are entries. -/
def coveredTexts (ls : List (List CodePoint)) : Set String :=
  {s | ∃ line ∈ ls, ∃ e, Reads line e ∧ e.covered = s}

/-- An entry that says what an entry with its own hash says has its own hash as well. -/
theorem Entry.Hashed.of_alike {e f : Entry} (he : e.Plain) (hf : f.Plain) (hashed : e.Hashed)
    (alike : e.Alike f) : f.Hashed := by
  have covered := (Entry.covered_eq_iff he hf).2 ⟨alike.record, alike.prevHash⟩
  have same := alike.entryHash
  obtain ⟨s, text, own⟩ := Entry.hashed_iff.1 hashed
  rw [own, Value.str_alike] at same
  exact Entry.hashed_iff.2 ⟨s, covered.symm.trans text, same⟩

section

variable {es fs : List Entry} {e f : Entry}

/-- A whole chain with one entry replaced. It stays whole exactly if the new entry says the same, or
is the last one, and goes on from the entry before it with a hash of its own. -/
theorem whole_replaced (whole : Whole (es ++ e :: fs)) (he : e.Plain) (hf : f.Plain)
    (apart : ∀ s t : String, e.covered = s → f.covered = t → Digest.sha256 s = Digest.sha256 t →
      s = t) :
    Whole (es ++ f :: fs) ↔
      e.Alike f ∨ fs = [] ∧ f.Hashed ∧ f.prevHash = tailHash (.str genesisHash) es := by
  rw [whole_iff_goesOn, goesOn_append, GoesOn] at *
  obtain ⟨start, names, own, rest⟩ := whole
  rw [rest.other]
  constructor
  · rintro ⟨-, names', own', last | same⟩
    · exact Or.inr ⟨last, own', names'⟩
    · -- What follows names the hash of the old entry, so the new one has the same hash.
      obtain ⟨s, text, hash⟩ := Entry.hashed_iff.1 own
      obtain ⟨t, text', hash'⟩ := Entry.hashed_iff.1 own'
      have digests : Digest.sha256 t = Digest.sha256 s := by
        rw [hash, hash', Value.str.injEq, Text.plain.injEq] at same
        exact same
      have covered : e.covered = f.covered := by
        rw [text, text', apart s t text text' digests.symm]
      obtain ⟨record, prevHash⟩ := (Entry.covered_eq_iff he hf).1 covered
      exact Or.inl ⟨record, prevHash, by rw [hash, hash', Value.str_alike, digests]⟩
  · rintro (alike | ⟨last, own', names'⟩)
    · obtain ⟨s, tail⟩ := start.tail_string
      obtain ⟨t, hash⟩ := own.text
      have prevHash := alike.prevHash
      have entryHash := alike.entryHash
      rw [names, tail, Value.str_alike] at prevHash
      rw [hash, Value.str_alike, ← hash] at entryHash
      exact ⟨start, prevHash.trans tail.symm, own.of_alike he hf alike, Or.inr entryHash⟩
    · exact ⟨start, names', own', Or.inl last⟩

/-- Whatever is reported of such a chain is reported of the new entry or the one behind it. -/
theorem chainBreaches_replaced {bs : List Breach} (whole : Whole (es ++ e :: fs))
    (found : chainBreaches (es ++ f :: fs) = .ok bs) :
    ∀ b ∈ bs, b.index = es.length ∨ b.index = es.length + 1 := by
  rw [whole_iff_goesOn, goesOn_append, GoesOn] at whole
  obtain ⟨start, -, -, rest⟩ := whole
  obtain ⟨own, later, place, behind, rfl⟩ := chainBreaches_append (whole_iff_goesOn.2 start) found
  intro b hb
  obtain here | after := List.mem_append.1 hb
  · exact Or.inl (place b here)
  · exact Or.inr (laterBreaches_index rest behind b after)

/-- Whatever is reported of a whole chain that has lost an entry is reported of the one behind it.
-/
theorem chainBreaches_removed {bs : List Breach} (whole : Whole (es ++ e :: fs))
    (found : chainBreaches (es ++ fs) = .ok bs) : ∀ b ∈ bs, b.index = es.length := by
  rw [whole_iff_goesOn, goesOn_append, GoesOn] at whole
  obtain ⟨start, -, own, rest⟩ := whole
  have before : Whole es := whole_iff_goesOn.2 start
  cases fs with
  | nil =>
      obtain ⟨none, quiet, clean⟩ := chainBreaches_legible before.legible
      rw [List.append_nil, quiet, clean.2 before] at found
      cases found
      exact List.forall_mem_nil _
  | cons g gs =>
      obtain ⟨-, own, rest⟩ := rest
      obtain ⟨here, later, place, behind, rfl⟩ := chainBreaches_append before found
      cases (laterBreaches_quiet own rest (es.length + 1)).symm.trans behind
      rwa [List.append_nil]

end

section

variable {ls ms : List (List CodePoint)} {es fs : List Entry} {line : List CodePoint}
  (reads : List.Forall₂ Reads ls es) (behind : List.Forall₂ Reads ms fs)
include reads behind

/-- What lines are read as, all but one of which are entries. -/
theorem reads_replaced {all : List Entry} :
    List.Forall₂ Reads (ls ++ line :: ms) all ↔ ∃ e, Reads line e ∧ all = es ++ e :: fs := by
  constructor
  · intro every
    obtain ⟨each, rfl⟩ := forall₂_reads_iff.1 every
    obtain ⟨e, own⟩ := each line (by simp)
    refine ⟨e, own, ?_⟩
    rw [List.filterMap_append, List.filterMap_cons, readLine?_of_reads own,
      (forall₂_reads_iff.1 reads).2, (forall₂_reads_iff.1 behind).2]
  · rintro ⟨e, own, rfl⟩
    exact List.rel_append reads (.cons own behind)

section

variable {e : Entry} (whole : Whole (es ++ e :: fs)) {text : Text}
  (written : writtenLines text.toList = ls ++ line :: ms)
include whole written

/-- A log of a whole chain with one line replaced comes to a report, which only names the entry of
that line and the one behind it. -/
theorem breaches_replaced (known : ¬ Foreign line) (legible : ∀ f, Reads line f → f.Legible) :
    ∃ bs, breaches text = .ok bs ∧ ∀ b ∈ bs, b.index = es.length ∨ b.index = es.length + 1 := by
  obtain ⟨unread, here, read⟩ := entriesFrom_replaced reads behind known
  have all : ∀ f ∈ es ++ ((readLine? line).toList ++ fs), f.Legible := by
    intro f hf
    obtain before | rest := List.mem_append.1 hf
    · exact whole.legible f (List.mem_append_left _ before)
    · obtain own | after := List.mem_append.1 rest
      · exact legible f (readLine?_eq_some.1 (Option.mem_toList.1 own))
      · exact whole.legible f (List.mem_append_right _ (List.mem_cons_of_mem _ after))
  obtain ⟨cs, chain, -⟩ := chainBreaches_legible all
  refine ⟨unread ++ cs, ?_, List.forall_mem_append.2 ⟨fun b hb => Or.inl ?_, ?_⟩⟩
  · rw [breaches_of_entries (written ▸ read), chain]
    rfl
  · rw [here b hb, reads.length_eq]
  · -- A line that is no entry is left out, and what follows it moves up to its place.
    cases own : readLine? line with
    | none =>
        rw [own] at chain
        exact fun b hb => Or.inl (chainBreaches_removed whole chain b hb)
    | some f =>
        rw [own] at chain
        exact chainBreaches_replaced whole chain

/-- A replaced line with a lone surrogate ends the verification before any report. -/
theorem breaches_unencodable {f : Entry} (own : Reads line f) (shown : Showable f.prevHash)
    (h : (bound f.record f.prevHash).isEncodable = false) :
    breaches text = .error .notEncodable := by
  obtain ⟨unread, -, read⟩ := entriesFrom_replaced reads behind own.known
  have before : Whole es := by
    rw [whole_iff_goesOn, goesOn_append] at whole
    exact whole_iff_goesOn.2 whole.1
  rw [readLine?_of_reads own] at read
  rw [breaches_of_entries (written ▸ read)]
  exact congrArg (Except.map _) (chainBreaches_unencodable before shown h)

end

end

/-- One line of a log that verified is replaced by another one, which does not stop the readers and
shows its hashes, if it has any. If the new line is an entry with half a surrogate pair in what its
hash covers, the verifier ends in a fault. Otherwise the log verifies again exactly if the new line
is an entry that says what the old one said, or if it is the last line and an entry that goes on
from the one before it with a hash of its own, and whatever is reported is reported of the entry of
that line or of the one behind it. -/
theorem verify_locates_replacement {files files' : Files} {path : FilePath} {text text' : String}
    (read : files.read path = .ok text) (read' : files'.read path = .ok text')
    (clean : verify files path = .ok []) {before after : List (List CodePoint)}
    {l l' : List CodePoint}
    (replaced : Replaced before l l' after (Text.toList text) (Text.toList text'))
    (known : ¬ Foreign (Text.strip l')) (shown : ∀ f, Reads (Text.strip l') f → f.Showable)
    (apart : Set.InjOn Digest.sha256 (coveredTexts [Text.strip l, Text.strip l'])) :
    ∃ es e fs, List.Forall₂ Reads (inked before) es ∧ Reads (Text.strip l) e ∧
      List.Forall₂ Reads (inked after) fs ∧
      ((∃ f, Reads (Text.strip l') f ∧ (bound f.record f.prevHash).isEncodable = false) →
        verify files' path = .error (.misfit .notEncodable)) ∧
      ((∀ f, Reads (Text.strip l') f → (bound f.record f.prevHash).isEncodable = true) →
        ∃ bs, verify files' path = .ok bs ∧
          (bs = [] ↔ ∃ f, Reads (Text.strip l') f ∧
            (e.Alike f ∨ fs = [] ∧ f.Hashed ∧ f.prevHash = tailHash (.str genesisHash) es)) ∧
          ∀ b ∈ bs, b.index = es.length ∨ b.index = es.length + 1) := by
  rw [verify_of_read read, lift_eq_ok] at clean
  obtain ⟨all, every, whole⟩ := breaches_clean.1 clean
  rw [writtenLines_split replaced.lines replaced.ink] at every
  obtain ⟨each, -⟩ := forall₂_reads_iff.1 every
  have reads : List.Forall₂ Reads (inked before) ((inked before).filterMap readLine?) :=
    forall₂_reads_iff.2 ⟨fun line hl => each line (List.mem_append_left _ hl), rfl⟩
  have behind : List.Forall₂ Reads (inked after) ((inked after).filterMap readLine?) :=
    forall₂_reads_iff.2 ⟨fun line hl =>
      each line (List.mem_append_right _ (List.mem_cons_of_mem _ hl)), rfl⟩
  obtain ⟨e, own, rfl⟩ := (reads_replaced reads behind).1 every
  have written := writtenLines_split replaced.lines' replaced.ink'
  refine ⟨_, e, _, reads, own, behind, ?_, fun bytes => ?_⟩
  · rintro ⟨f, reads', unencodable⟩
    rw [verify_of_read read', breaches_unencodable reads behind whole written reads'
      (shown f reads').prevHash unencodable]
    rfl
  obtain ⟨bs, report, located⟩ := breaches_replaced reads behind whole written known
    fun f reads' => ⟨shown f reads', bytes f reads'⟩
  refine ⟨bs, ?_, ?_, located⟩
  · rw [verify_of_read read', report]
    rfl
  · have stays : ∀ f, Reads (Text.strip l') f → (Whole (_ ++ f :: _) ↔ _) := fun f reads' =>
      whole_replaced whole own.plain reads'.plain fun s t text text' same =>
        apart ⟨_, List.mem_cons_self, e, own, text⟩
          ⟨_, List.mem_cons_of_mem _ List.mem_cons_self, f, reads', text'⟩ same
    have again : bs = [] ↔ breaches text' = .ok [] := by rw [report, Except.ok.injEq]
    rw [again, breaches_clean, written]
    simp only [reads_replaced reads behind]
    constructor
    · rintro ⟨_, ⟨f, reads', rfl⟩, whole'⟩
      exact ⟨f, reads', (stays f reads').1 whole'⟩
    · rintro ⟨f, reads', same⟩
      exact ⟨_, ⟨f, reads', rfl⟩, (stays f reads').2 same⟩

def numbered (n : Int) : Entry := .stamped [("n", .int n)] (.str genesisHash)

def secondEntry : Entry := .stamped [("n", .int 2)] (numbered 1).entryHash

def secondText (first : String) : String := first ++ "\n" ++ (secondEntry.lineString ++ "\n")

def secondFiles (first : String) : Files := ⟨[(["audit.jsonl"], .file (secondText first))]⟩

theorem secondFiles_read (first : String) :
    (secondFiles first).read ["audit.jsonl"] = .ok (secondText first) := by rfl

theorem numbered_hashed (n : Int) : (numbered n).Hashed := Entry.stamped_hashed rfl

theorem secondEntry_hashed : secondEntry.Hashed := Entry.stamped_hashed rfl

theorem stampedNumber_wellFormed (n : Int) (previous : String) :
    (Entry.stamped [("n", .int n)] (.str previous)).WellFormed :=
  ⟨Value.wellFormed_object.2 (by simp [Entry.stamped, Value.WellFormed]), ⟨_, rfl⟩, ⟨_, rfl⟩⟩

theorem numbered_reads (n : Int) : Reads (numbered n).lineText.toList (numbered n) :=
  (stampedNumber_wellFormed n _).reads

theorem secondEntry_reads : Reads secondEntry.lineText.toList secondEntry :=
  (stampedNumber_wellFormed 2 _).reads

theorem numbered_toList (n : Int) :
    Text.toList (numbered n).lineString = (numbered n).lineText.toList := by
  rw [← (numbered_hashed n).line.1]

theorem numbered_isLine (n : Int) : Text.IsLine (Text.toList (numbered n).lineString) := by
  rw [numbered_toList]
  exact (numbered n).lineText_isLine

theorem secondText_toList (first : String) :
    Text.toList (secondText first) =
      [Text.toList first, secondEntry.lineText.toList].flatMap (· ++ [.char '\n']) := by
  rw [secondText, ← Text.plain_append_plain, ← Text.plain_append_plain, ← Text.plain_append_plain,
    ← secondEntry_hashed.line.1]
  simp

theorem secondText_lines {first : String} (h : Text.IsLine (Text.toList first)) :
    Text.lines (Text.toList (secondText first)) =
      [Text.toList first, secondEntry.lineText.toList, []] := by
  rw [secondText_toList, Text.lines_written (List.forall_mem_cons.2
    ⟨h, List.forall_mem_singleton.2 secondEntry.lineText_isLine⟩)]
  rfl

theorem strip_line_ne_nil {l : List CodePoint} (h : Text.IsLine l) : Text.strip l ≠ [] := by
  obtain ⟨c, rest, start, -⟩ := h.first
  rw [Text.strip_line h, start]
  exact List.cons_ne_nil c rest

theorem secondEntry_inked :
    inked [secondEntry.lineText.toList, []] = [secondEntry.lineText.toList] := by
  obtain ⟨c, rest, start, -⟩ := secondEntry.lineText_isLine.first
  rw [inked, List.map_cons, Text.strip_line secondEntry.lineText_isLine, start]
  rfl

theorem secondFiles_clean : verify (secondFiles (numbered 1).lineString) ["audit.jsonl"] =
    .ok [] := by
  have goesOn : GoesOn (.str genesisHash) [numbered 1, secondEntry] :=
    ⟨rfl, numbered_hashed 1, rfl, secondEntry_hashed, trivial⟩
  have wellFormed : ∀ e ∈ [numbered 1, secondEntry], e.WellFormed := by
    simp only [List.forall_mem_cons]
    exact ⟨stampedNumber_wellFormed 1 _, stampedNumber_wellFormed 2 _, List.forall_mem_nil _⟩
  have text : Text.toList (secondText (numbered 1).lineString) =
    written [numbered 1, secondEntry] := by
    rw [secondText_toList, numbered_toList, written, List.map_cons, List.map_singleton]
  have reads := written_reads wellFormed
  rw [← text] at reads
  rw [verify_of_read (secondFiles_read _), lift_eq_ok, breaches_clean]
  exact ⟨_, reads, whole_iff_goesOn.2 goesOn⟩

/-- The first of these two lines, replaced. -/
theorem numbered_replaced {line : String} (h : Text.IsLine (Text.toList line)) :
    Replaced [] (numbered 1).lineText.toList (Text.toList line) [secondEntry.lineText.toList, []]
      (Text.toList (secondText (numbered 1).lineString)) (Text.toList (secondText line)) := by
  have lines := secondText_lines (numbered_isLine 1)
  rw [numbered_toList] at lines
  exact ⟨lines, secondText_lines h, strip_line_ne_nil (numbered 1).lineText_isLine,
    strip_line_ne_nil h⟩

theorem numbered_apart {s t : String} (hs : (numbered 1).covered = s)
    (ht : (numbered 2).covered = t) :
    Digest.sha256 s ≠ Digest.sha256 t := by
  have digest : ∀ n (s : String), (numbered n).covered = s →
      Digest.sha256 s = Digest.hexDigest (hashedBytes [("n", .int n)] (.str genesisHash)) :=
    fun n s text => Except.ok.inj ((hashOf_ok text).symm.trans (hashOf_eq rfl))
  rw [digest 1 s hs, digest 2 t ht]
  decide +kernel

/-- The first of two entries is replaced by another entry with a hash of its own, which the second
one does not name. -/
theorem verify_locates_replacement_first :
    verify (secondFiles (numbered 1).lineString) ["audit.jsonl"] = .ok [] ∧
      ∃ bs, verify (secondFiles (numbered 2).lineString) ["audit.jsonl"] = .ok bs ∧ bs ≠ [] ∧
        ∀ b ∈ bs, b.index = 0 ∨ b.index = 1 := by
  have reads : ∀ n e, Reads (Text.strip (numbered n).lineText.toList) e ↔ e = numbered n := by
    intro n e
    rw [Text.strip_line (numbered n).lineText_isLine, ← readLine?_eq_some,
      readLine?_of_reads (numbered_reads n), Option.some.injEq, eq_comm]
  have known : ¬ Foreign (Text.strip (numbered 2).lineText.toList) := ((reads 2 _).2 rfl).known
  have shown : ∀ f, Reads (Text.strip (numbered 2).lineText.toList) f → f.Showable := by
    intro f own
    rw [(reads 2 f).1 own]
    exact ⟨Or.inl ⟨_, rfl⟩, Or.inl ⟨_, rfl⟩⟩
  have bytes : ∀ f, Reads (Text.strip (numbered 2).lineText.toList) f →
      (bound f.record f.prevHash).isEncodable = true := by
    intro f own
    rw [(reads 2 f).1 own]
    rfl
  have covers : ∀ s ∈ coveredTexts [Text.strip (numbered 1).lineText.toList,
      Text.strip (numbered 2).lineText.toList], (numbered 1).covered = s ∨
        (numbered 2).covered = s := by
    rintro s ⟨line, member, e, own, text⟩
    obtain first | second := List.mem_pair.1 member
    · rw [first, reads] at own
      exact Or.inl (own ▸ text)
    · rw [second, reads] at own
      exact Or.inr (own ▸ text)
  have apart : Set.InjOn Digest.sha256 (coveredTexts [Text.strip (numbered 1).lineText.toList,
      Text.strip (numbered 2).lineText.toList]) := by
    intro s hs t ht same
    obtain first | first := covers s hs <;> obtain second | second := covers t ht
    · exact Text.plain.inj (first.symm.trans second)
    · exact absurd same (numbered_apart first second)
    · exact absurd same.symm (numbered_apart second first)
    · exact Text.plain.inj (first.symm.trans second)
  have replaced := numbered_replaced (numbered_isLine 2)
  rw [numbered_toList] at replaced
  obtain ⟨es, e, fs, before, own, behind, -, reports⟩ :=
    verify_locates_replacement (secondFiles_read _) (secondFiles_read _) secondFiles_clean
      replaced known shown apart
  obtain ⟨bs, report, clean, located⟩ := reports bytes
  cases before
  cases (reads 1 e).1 own
  refine ⟨secondFiles_clean, bs, report, fun none => ?_, located⟩
  obtain ⟨f, own', alike | ⟨last, -⟩⟩ := clean.1 none
  · cases (reads 2 f).1 own'
    have covered := (Entry.covered_eq_iff (numbered_reads 1).plain (numbered_reads 2).plain).2
      ⟨alike.record, alike.prevHash⟩
    obtain ⟨s, text, -⟩ := Entry.hashed_iff.1 (numbered_hashed 1)
    exact numbered_apart text (covered.symm.trans text) rfl
  · rw [last, secondEntry_inked] at behind
    exact absurd behind.length_eq (Nat.succ_ne_zero 0)

/-- A line that is an entry, but with half a surrogate pair in its record, ends the verification in
a fault, where the replacement was to be reported. -/
theorem loneLine_ends_verification :
    verify (secondFiles (numbered 1).lineString) ["audit.jsonl"] = .ok [] ∧
      Replaced [] (numbered 1).lineText.toList (Text.toList loneLine)
        [secondEntry.lineText.toList, []] (Text.toList (secondText (numbered 1).lineString))
        (Text.toList (secondText loneLine)) ∧
      Reads (Text.strip (Text.toList loneLine)) loneEntry ∧ loneEntry.Showable ∧
      verify (secondFiles loneLine) ["audit.jsonl"] = .error (.misfit .notEncodable) := by
  have replaced := numbered_replaced loneLine_isLine
  have reads : Reads (Text.strip (Text.toList loneLine)) loneEntry := by
    rw [Text.strip_line loneLine_isLine]
    exact loneLine_reads
  have shown : loneEntry.Showable := ⟨Or.inl ⟨_, rfl⟩, Or.inl ⟨_, rfl⟩⟩
  have written := writtenLines_split replaced.lines' replaced.ink'
  have behind : List.Forall₂ Reads (inked [secondEntry.lineText.toList, []]) [secondEntry] := by
    rw [secondEntry_inked]
    exact .cons secondEntry_reads .nil
  have whole : Whole ([] ++ numbered 1 :: [secondEntry]) :=
    whole_iff_goesOn.2 ⟨rfl, numbered_hashed 1, rfl, secondEntry_hashed, trivial⟩
  refine ⟨secondFiles_clean, replaced, reads, shown, ?_⟩
  rw [verify_of_read (secondFiles_read _),
    breaches_unencodable .nil behind whole written reads shown.prevHash loneEntry_unencodable]
  rfl

end ReleaseGate.Audit
