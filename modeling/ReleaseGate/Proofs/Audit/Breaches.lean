import Mathlib.Data.List.Chain
import ReleaseGate.Proofs.Audit.Chain
import ReleaseGate.Proofs.Value.Places

/-!
The breaches of a log, whoever wrote it. There are none exactly if every line is an entry and the
entries form a whole chain. They come to a report exactly if no line stops the reader, all hashes
can be shown and all records have bytes: a hash that is neither a text nor a list ends in a fault,
and so does half a surrogate pair in what a hash covers. A log that was written by appends is
breached by those records alone that are not hashed as they are read.
-/

namespace ReleaseGate.Audit

open Value (same_str_iff)

def Showable (v : Value) : Prop := (∃ s, v = .str s) ∨ ∃ vs, v = .list vs

namespace Entry

structure Showable (e : Entry) : Prop where
  prevHash : Audit.Showable e.prevHash
  entryHash : Audit.Showable e.entryHash

/-- An entry that a report can show, whatever it finds, and whose hash can be computed. -/
structure Legible (e : Entry) : Prop where
  shown : e.Showable
  bytes : (bound e.record e.prevHash).isEncodable = true

end Entry

/-- A chain of entries: it starts at the genesis hash, every entry names the one before it, and
every entry has its own hash. -/
structure Whole (es : List Entry) : Prop where
  begins : ∀ e ∈ es.head?, e.prevHash = .str genesisHash
  linked : es.IsChain fun e f => f.prevHash = e.entryHash
  hashed : ∀ e ∈ es, e.Hashed

namespace Whole

theorem empty : Whole [] := ⟨by simp, .nil, by simp⟩

/-- A chain grows at its end: by a record that names the last hash and carries its own. -/
theorem append_singleton {es : List Entry} {e : Entry} :
    Whole (es ++ [e]) ↔
      Whole es ∧ e.prevHash = tailHash (.str genesisHash) es ∧ e.Hashed := by
  rcases List.eq_nil_or_concat es with rfl | ⟨before, l, rfl⟩
  · constructor
    · rintro ⟨begins, -, hashed⟩
      exact ⟨empty, begins e rfl, hashed e List.mem_cons_self⟩
    · rintro ⟨-, begins, hashed⟩
      exact ⟨by simpa [tailHash] using begins, .singleton e, by simpa using hashed⟩
  · have first : (before ++ [l] ++ [e]).head? = (before ++ [l]).head? := by cases before <;> rfl
    rw [List.concat_eq_append, tailHash_append_singleton]
    constructor
    · rintro ⟨begins, linked, hashed⟩
      obtain ⟨linked, -, link⟩ := List.isChain_append.1 linked
      obtain ⟨hashed, own⟩ := List.forall_mem_append.1 hashed
      exact ⟨⟨first ▸ begins, linked, hashed⟩, link l (by simp) e rfl, own e List.mem_cons_self⟩
    · rintro ⟨⟨begins, linked, hashed⟩, link, own⟩
      refine ⟨first ▸ begins, List.isChain_append.2 ⟨linked, .singleton e, ?_⟩, ?_⟩
      · simpa using link
      · exact List.forall_mem_append.2 ⟨hashed, List.forall_mem_singleton.2 own⟩

theorem tail_string {es : List Entry} (h : Whole es) :
    ∃ s : String, tailHash (.str genesisHash) es = .str s := by
  cases last : es.getLast? with
  | none => exact ⟨genesisHash, by rw [tailHash, last]; rfl⟩
  | some e =>
      obtain ⟨hash, -, own⟩ := h.hashed e (List.mem_of_getLast? last)
      exact ⟨hash, by rw [tailHash, last, Option.map_some, Option.getD_some, own]⟩

theorem prevHash_string {es : List Entry} (h : Whole es) :
    ∀ e ∈ es, ∃ s : String, e.prevHash = .str s := by
  induction es using List.reverseRecOn with
  | nil => exact List.forall_mem_nil _
  | append_singleton es e ih =>
      obtain ⟨before, link, -⟩ := append_singleton.1 h
      obtain ⟨s, tail⟩ := before.tail_string
      exact List.forall_mem_append.2 ⟨ih before, List.forall_mem_singleton.2 ⟨s, link.trans tail⟩⟩

theorem legible {es : List Entry} (h : Whole es) : ∀ e ∈ es, e.Legible := by
  intro e he
  obtain ⟨s, prevHash⟩ := h.prevHash_string e he
  have hashed := h.hashed e he
  have bytes := hashed.isEncodable
  obtain ⟨hash, -, own⟩ := hashed
  exact ⟨⟨Or.inl ⟨s, prevHash⟩, Or.inl ⟨hash, own⟩⟩, bytes⟩

end Whole

theorem shown_cases (v : Value) :
    (Showable v ∧ ∃ s, shown v = .ok s) ∨ (¬ Showable v ∧ shown v = .error .wrongType) := by
  cases v with
  | str s => exact Or.inl ⟨Or.inl ⟨s, rfl⟩, _, rfl⟩
  | list vs => exact Or.inl ⟨Or.inr ⟨vs, rfl⟩, _, rfl⟩
  | null | bool _ | int _ | float _ | object _ => exact Or.inr ⟨by simp [Showable], rfl⟩

theorem shown_ok {v : Value} (h : Showable v) : ∃ s, shown v = .ok s := by
  obtain ⟨-, shown⟩ | ⟨none, -⟩ := shown_cases v
  · exact shown
  · exact absurd h none

theorem shown_error {v : Value} (h : ¬ Showable v) : shown v = .error .wrongType := by
  obtain ⟨some, -⟩ | ⟨-, error⟩ := shown_cases v
  · exact absurd some h
  · exact error

theorem same_showable {v w : Value} (hv : ¬ Showable v) (hw : Showable w) : v.same w = false := by
  obtain ⟨s, rfl⟩ | ⟨vs, rfl⟩ := hw
  · exact Bool.eq_false_iff.2 fun same => hv (Or.inl ⟨s, same_str_iff.1 same⟩)
  · cases v with
    | list ws => exact absurd (Or.inr ⟨ws, rfl⟩) hv
    | null | bool _ | int _ | float _ | str _ | object _ => rfl

section

variable {e : Entry} (index : Nat)

/-- For a record that can be shown and hashed, the hash check reports exactly a hash that is not the
record's own. -/
theorem hashBreach_legible (h : Showable e.entryHash)
    (bytes : (bound e.record e.prevHash).isEncodable = true) :
    Yields (hashBreach index e) fun bs => bs = [] ↔ e.Hashed := by
  obtain ⟨hash, computed⟩ := hashOf_isOk_iff.2 bytes
  have computes : e.computedHash = .ok hash := computed
  have own : e.Hashed ↔ e.entryHash.same (.str hash) = true := by
    simp [Entry.Hashed, computes, same_str_iff]
  unfold hashBreach
  refine .after computes ?_
  split
  · rename_i same
    exact .ok (iff_of_true rfl (own.2 same))
  · rename_i other
    obtain ⟨s, text⟩ := shown_ok h
    exact .after text (.ok (iff_of_false (List.cons_ne_nil _ _) (mt own.1 other)))

/-- A record whose text has no bytes ends the check with an error, whatever hash it carries. -/
theorem hashBreach_unencodable (h : (bound e.record e.prevHash).isEncodable = false) :
    hashBreach index e = .error .notEncodable := by
  have computed : e.computedHash = .error .notEncodable := hashOf_error h
  rw [hashBreach, computed]
  rfl

theorem hashBreach_unshown (h : ¬ Showable e.entryHash) :
    ∃ m, hashBreach index e = .error m := by
  cases computes : e.computedHash with
  | error m => exact ⟨m, by rw [hashBreach, computes]; rfl⟩
  | ok hash =>
      have other := same_showable h (Or.inl ⟨hash, rfl⟩)
      refine ⟨.wrongType, ?_⟩
      rw [hashBreach, computes]
      simp only [bind, Except.bind, other, shown_error h]
      rfl

/-- The link check reports exactly a record that does not name the hash before it. -/
theorem linkBreach_shown {previous : Value} (h : Showable e.prevHash) (hp : Showable previous) :
    Yields (linkBreach index previous e) fun bs => bs = [] ↔ e.prevHash.same previous = true := by
  unfold linkBreach
  split
  · rename_i same
    exact .ok (by simp [same])
  · rename_i other
    obtain ⟨s, text⟩ := shown_ok h
    obtain ⟨t, before⟩ := shown_ok hp
    rw [text, before]
    exact .ok (by simpa using other)

theorem linkBreach_unshown {previous : Value} (h : ¬ Showable e.prevHash)
    (hp : Showable previous) : linkBreach index previous e = .error .wrongType := by
  rw [linkBreach, same_showable h hp, shown_error h]
  rfl

end

/-- Behind an entry with its own hash, legible entries breach nothing exactly if they go on from
it. -/
theorem laterBreaches_legible {es : List Entry} (legible : ∀ e ∈ es, e.Legible) {e : Entry}
    (h : Showable e.entryHash) (index : Nat) :
    Yields (laterBreaches index e.entryHash es) fun bs => e.Hashed →
      (bs = [] ↔ (e :: es).IsChain (fun e f => f.prevHash = e.entryHash) ∧ ∀ f ∈ es, f.Hashed) := by
  induction es generalizing e index with
  | nil => exact .ok (by simp)
  | cons f es ih =>
      obtain ⟨first, rest⟩ := List.forall_mem_cons.1 legible
      obtain ⟨own, hown, clean⟩ := hashBreach_legible index first.shown.entryHash first.bytes
      obtain ⟨link, hlink, named⟩ := linkBreach_shown index first.shown.prevHash h
      obtain ⟨later, hlater, whole⟩ := ih rest first.shown.entryHash (index + 1)
      refine ⟨own ++ link ++ later, ?_, ?_⟩
      · rw [laterBreaches, hown, hlink, hlater]
        rfl
      · rintro ⟨hash, -, text⟩
        rw [text, same_str_iff, ← text] at named
        rw [List.append_eq_nil_iff, List.append_eq_nil_iff, clean, named, List.isChain_cons_cons,
          List.forall_mem_cons]
        -- What comes after an entry with another hash than its own does not matter.
        by_cases own : f.Hashed
        · rw [whole own]
          tauto
        · tauto

/-- One record that cannot be shown or hashed ends the whole check, wherever it stands. -/
theorem laterBreaches_illegible {es : List Entry} (hidden : ∃ e ∈ es, ¬ e.Legible)
    {previous : Value}
    (h : Showable previous) (index : Nat) : ∃ m, laterBreaches index previous es = .error m := by
  induction es generalizing previous index with
  | nil => simp at hidden
  | cons e es ih =>
      rw [laterBreaches]
      cases bytes : (bound e.record e.prevHash).isEncodable with
      | false => exact ⟨_, by rw [hashBreach_unencodable index bytes]; rfl⟩
      | true =>
          by_cases own : Showable e.entryHash
          · obtain ⟨bs, hown, -⟩ := hashBreach_legible index own bytes
            by_cases link : Showable e.prevHash
            · obtain ⟨cs, hlink, -⟩ := linkBreach_shown index link h
              have later : ∃ f ∈ es, ¬ f.Legible := by
                simpa [Entry.Legible.mk ⟨link, own⟩ bytes] using hidden
              obtain ⟨m, fails⟩ := ih later own (index + 1)
              exact ⟨m, by rw [hown, hlink, fails]; rfl⟩
            · exact ⟨_, by rw [hown, linkBreach_unshown index link h]; rfl⟩
          · obtain ⟨m, fails⟩ := hashBreach_unshown index own
            exact ⟨m, by rw [fails]; rfl⟩

def genesisBreach (e : Entry) (text : Text) : List Breach :=
  if e.prevHash.same (.str genesisHash) then [] else [.notGenesis 0 text]

theorem genesisBreach_clean {e : Entry} {text : Text} :
    genesisBreach e text = [] ↔ e.prevHash = .str genesisHash := by
  simp [genesisBreach, ← same_str_iff]

theorem chainBreaches_cons {e : Entry} {text : Text} (h : shown e.prevHash = .ok text)
    (es : List Entry) :
    chainBreaches (e :: es) = (do
      let own ← hashBreach 0 e
      return genesisBreach e text ++ own ++ (← laterBreaches 1 e.entryHash es)) := by
  rw [chainBreaches, genesisBreach, h]
  split <;> rfl

/-- Over legible records the chain check reports nothing exactly for a whole chain. -/
theorem chainBreaches_legible {es : List Entry} (legible : ∀ e ∈ es, e.Legible) :
    Yields (chainBreaches es) fun bs => bs = [] ↔ Whole es := by
  cases es with
  | nil => exact .ok ⟨fun _ => .empty, fun _ => rfl⟩
  | cons e es =>
      obtain ⟨head, rest⟩ := List.forall_mem_cons.1 legible
      obtain ⟨text, htext⟩ := shown_ok head.shown.prevHash
      obtain ⟨own, hown, clean⟩ := hashBreach_legible 0 head.shown.entryHash head.bytes
      obtain ⟨later, hlater, whole⟩ := laterBreaches_legible rest head.shown.entryHash 1
      have parts : Whole (e :: es) ↔ e.prevHash = .str genesisHash ∧ e.Hashed ∧
          (e :: es).IsChain (fun e f => f.prevHash = e.entryHash) ∧ ∀ f ∈ es, f.Hashed := by
        constructor
        · rintro ⟨begins, linked, hashed⟩
          obtain ⟨own, others⟩ := List.forall_mem_cons.1 hashed
          exact ⟨begins e rfl, own, linked, others⟩
        · rintro ⟨begins, own, linked, others⟩
          exact ⟨by simpa using begins, linked, List.forall_mem_cons.2 ⟨own, others⟩⟩
      refine ⟨genesisBreach e text ++ own ++ later, ?_, ?_⟩
      · rw [chainBreaches_cons htext, hown, hlater]
        rfl
      · change genesisBreach e text ++ own ++ later = [] ↔ Whole (e :: es)
        rw [parts, List.append_eq_nil_iff, List.append_eq_nil_iff, clean, genesisBreach_clean]
        by_cases own : e.Hashed
        · rw [whole own]
          tauto
        · tauto

theorem chainBreaches_illegible {es : List Entry} (hidden : ∃ e ∈ es, ¬ e.Legible) :
    ∃ m, chainBreaches es = .error m := by
  cases es with
  | nil => simp at hidden
  | cons e es =>
      by_cases first : Showable e.prevHash
      · obtain ⟨text, htext⟩ := shown_ok first
        rw [chainBreaches_cons htext]
        cases bytes : (bound e.record e.prevHash).isEncodable with
        | false => exact ⟨_, by rw [hashBreach_unencodable 0 bytes]; rfl⟩
        | true =>
            by_cases own : Showable e.entryHash
            · obtain ⟨bs, hown, -⟩ := hashBreach_legible 0 own bytes
              have later : ∃ f ∈ es, ¬ f.Legible := by
                simpa [Entry.Legible.mk ⟨first, own⟩ bytes] using hidden
              obtain ⟨m, fails⟩ := laterBreaches_illegible later own 1
              exact ⟨m, by rw [hown, fails]; rfl⟩
            · obtain ⟨m, fails⟩ := hashBreach_unshown 0 own
              exact ⟨m, by rw [fails]; rfl⟩
      · have other := same_showable first (Or.inl ⟨genesisHash, rfl⟩)
        refine ⟨.wrongType, ?_⟩
        rw [chainBreaches, other, shown_error first]
        rfl

theorem breaches_of_entries {text : Text} {bs : List Breach} {es : List Entry}
    (read : entriesFrom 0 (writtenLines text.toList) = .ok (bs, es)) :
    breaches text = (chainBreaches es).map fun cs => bs ++ cs := by
  rw [breaches, read]
  cases h : chainBreaches es <;> simp [bind, Except.bind, pure, Except.pure, Except.map, h]

theorem breaches_stopped {text : Text} (h : ∃ line ∈ writtenLines text.toList, Foreign line) :
    breaches text = .error .notAnObject := by
  rw [breaches, entriesFrom_stopped h]
  rfl

theorem breaches_illegible {text : Text}
    (known : ∀ line ∈ writtenLines text.toList, ¬ Foreign line)
    (hidden : ∃ e ∈ (writtenLines text.toList).filterMap readLine?, ¬ e.Legible) :
    ∃ m, breaches text = .error m := by
  obtain ⟨bs, read, -⟩ := entriesFrom_known known 0
  obtain ⟨m, fails⟩ := chainBreaches_illegible hidden
  refine ⟨m, ?_⟩
  rw [breaches_of_entries read, fails]
  rfl

theorem breaches_legible {text : Text}
    (known : ∀ line ∈ writtenLines text.toList, ¬ Foreign line)
    (legible : ∀ e ∈ (writtenLines text.toList).filterMap readLine?, e.Legible) :
    Yields (breaches text) fun bs => bs = [] ↔
      ∃ es, List.Forall₂ Reads (writtenLines text.toList) es ∧ Whole es := by
  obtain ⟨bs, read, each⟩ := entriesFrom_known known 0
  obtain ⟨cs, chain, whole⟩ := chainBreaches_legible legible
  refine ⟨bs ++ cs, ?_, ?_⟩
  · rw [breaches_of_entries read, chain]
    rfl
  · change bs ++ cs = [] ↔ _
    rw [List.append_eq_nil_iff, whole]
    constructor
    · rintro ⟨rfl, whole⟩
      exact ⟨_, entriesFrom_clean.1 read, whole⟩
    · rintro ⟨es, reads, whole⟩
      obtain ⟨all, rfl⟩ := forall₂_reads_iff.1 reads
      exact ⟨each.2 all, whole⟩

/-- A verification ends in a report exactly if every line is known and every record legible. -/
theorem breaches_report {text : Text} :
    (∃ bs, breaches text = .ok bs) ↔ (∀ line ∈ writtenLines text.toList, ¬ Foreign line) ∧
      ∀ e ∈ (writtenLines text.toList).filterMap readLine?, e.Legible := by
  constructor
  · rintro ⟨bs, report⟩
    have known : ∀ line ∈ writtenLines text.toList, ¬ Foreign line := by
      intro line hl foreign
      rw [breaches_stopped ⟨line, hl, foreign⟩] at report
      cases report
    refine ⟨known, fun e he => ?_⟩
    by_contra hidden
    obtain ⟨m, fails⟩ := breaches_illegible known ⟨e, he, hidden⟩
    cases report.symm.trans fails
  · rintro ⟨known, legible⟩
    obtain ⟨bs, report, -⟩ := breaches_legible known legible
    exact ⟨bs, report⟩

/-- A text verifies without a breach exactly if its lines read as the records of a whole chain. -/
theorem breaches_clean {text : Text} :
    breaches text = .ok [] ↔
      ∃ es, List.Forall₂ Reads (writtenLines text.toList) es ∧ Whole es := by
  constructor
  · intro clean
    obtain ⟨known, legible⟩ := breaches_report.1 ⟨[], clean⟩
    obtain ⟨bs, report, whole⟩ := breaches_legible known legible
    rw [clean] at report
    exact whole.1 (Except.ok.inj report).symm
  · rintro ⟨es, reads, whole⟩
    obtain ⟨each, rfl⟩ := forall₂_reads_iff.1 reads
    obtain ⟨bs, report, clean⟩ := breaches_legible (known_of_reads each) whole.legible
    rw [report, clean.2 ⟨_, reads, whole⟩]

theorem tailHash_asRead (previous : Value) (es : List Entry) :
    tailHash previous (es.map Entry.asRead) = tailHash previous es := by
  rw [tailHash, tailHash, List.getLast?_map, Option.map_map]
  rfl

theorem whole_iff_goesOn {es : List Entry} : Whole es ↔ GoesOn (.str genesisHash) es := by
  induction es using List.reverseRecOn with
  | nil => exact iff_of_true .empty trivial
  | append_singleton es e ih =>
      rw [Whole.append_singleton, ih, goesOn_append, GoesOn, GoesOn, and_true]

/-- An entry with its own hash is read with its own hash exactly if its record is hashed as read. -/
theorem Entry.Hashed.asRead_iff {e : Entry} (h : e.Hashed) : e.asRead.Hashed ↔ e.Intact := by
  obtain ⟨hash, computed, own⟩ := h
  rw [Intact, computed]
  constructor
  · rintro ⟨read, again, same⟩
    cases own.symm.trans same
    exact again
  · exact fun same => ⟨hash, same, own⟩

/-- Entries that go on from one another break the chain only by their own hashes. -/
theorem whole_asRead {es : List Entry} (h : GoesOn (.str genesisHash) es) :
    Whole (es.map Entry.asRead) ↔ ∀ e ∈ es, e.Intact := by
  induction es using List.reverseRecOn with
  | nil => exact iff_of_true .empty (List.forall_mem_nil _)
  | append_singleton es e ih =>
      obtain ⟨before, names, own, -⟩ := goesOn_append.1 h
      rw [List.map_append, List.map_singleton, Whole.append_singleton, tailHash_asRead, ih before,
        own.asRead_iff, List.forall_mem_append, List.forall_mem_singleton]
      exact and_congr_right' (and_iff_right names)

theorem Entry.Hashed.asRead_legible {e : Entry} (h : e.Hashed) (wellFormed : e.WellFormed) :
    e.asRead.Legible :=
  ⟨⟨Or.inl wellFormed.prevHash, Or.inl wellFormed.entryHash⟩,
    bound_own_isEncodable wellFormed.distinct h.isEncodable⟩

/-- The text of a chain is verified to the end, and is clean exactly if every record reads back as
it was hashed. -/
theorem breaches_written {text : Text} {es : List Entry} (goesOn : GoesOn (.str genesisHash) es)
    (records : ∀ e ∈ es, (Value.object e.record).WellFormed) (ht : text.toList = written es) :
    ∃ bs, breaches text = .ok bs ∧ (bs = [] ↔ ∀ e ∈ es, e.Intact) := by
  have wellFormed := goesOn.wellFormed records
  have reads := ht ▸ written_reads wellFormed
  obtain ⟨each, found⟩ := forall₂_reads_iff.1 reads
  have legible : ∀ e ∈ es.map Entry.asRead, e.Legible :=
    List.forall_mem_map.2 fun e he => (goesOn.hashed e he).asRead_legible (wellFormed e he)
  obtain ⟨bs, report, clean⟩ := breaches_legible (known_of_reads each) (found ▸ legible)
  refine ⟨bs, report, clean.trans ⟨?_, fun intact => ⟨_, reads, (whole_asRead goesOn).2 intact⟩⟩⟩
  rintro ⟨others, reads', whole⟩
  obtain ⟨-, same⟩ := forall₂_reads_iff.1 reads'
  exact (whole_asRead goesOn).1 (found.symm.trans same ▸ whole)

end ReleaseGate.Audit
