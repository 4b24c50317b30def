import ReleaseGate.Proofs.Audit.Covered
import ReleaseGate.Proofs.Audit.Verification

/-!
The last hash of a log that verifies stands for its whole history: where digests do not collide, two
such logs with one last hash hold the same entries, up to the order of members.
-/

namespace ReleaseGate.Audit

structure Entry.Alike (e f : Entry) : Prop where
  record : (Value.object e.record).Alike (.object f.record)
  prevHash : e.prevHash.Alike f.prevHash
  entryHash : e.entryHash.Alike f.entryHash

/-- The text that the hash of an entry covers. -/
def Entry.covered (e : Entry) : Text := hashedText e.record e.prevHash

/-- Texts whose digests, as far as they have any, tell them apart, from each other and from what
precedes all entries. -/
structure Collisionless (texts : List Text) : Prop where
  injective : ∀ s t : String, ↑s ∈ texts → ↑t ∈ texts → Digest.sha256 s = Digest.sha256 t → s = t
  notGenesis : ∀ s : String, ↑s ∈ texts → Digest.sha256 s ≠ genesisHash

theorem Collisionless.mono {texts fewer : List Text} (h : Collisionless texts)
    (sub : fewer ⊆ texts) : Collisionless fewer :=
  ⟨fun s t hs ht => h.injective s t (sub hs) (sub ht), fun s hs => h.notGenesis s (sub hs)⟩

namespace Entry

theorem Plain.unbound_record {e : Entry} (h : e.Plain) : unbound e.record = e.record := by
  refine List.filter_eq_self.2 fun m hm => bne_iff_ne.2 fun same => ?_
  exact absurd (same ▸ h.names m.1 (List.mem_map_of_mem hm)) (by decide)

theorem Plain.own_record {e : Entry} (h : e.Plain) : own e.record = e.record :=
  List.filter_eq_self.2 fun m hm => h.names m.1 (List.mem_map_of_mem hm)

theorem Plain.bound {e : Entry} (h : e.Plain) :
    (Value.object (putMember prevHashField e.prevHash e.record)).WellFormed :=
  Value.putMember_wellFormed h.prevHash h.record

/-- The hashes of two entries cover one text exactly if the entries say the same. -/
theorem covered_eq_iff {e f : Entry} (he : e.Plain) (hf : f.Plain) :
    e.covered = f.covered ↔
      (Value.object e.record).Alike (.object f.record) ∧ e.prevHash.Alike f.prevHash := by
  rw [covered, covered, hashedText_eq_iff he.record hf.record he.prevHash hf.prevHash,
    he.unbound_record, hf.unbound_record, and_comm]

/-- The hash of an entry with its own is the digest of what it covers. -/
theorem hashed_iff {e : Entry} :
    e.Hashed ↔ ∃ s : String, e.covered = s ∧ e.entryHash = .str (Digest.sha256 s) := by
  constructor
  · rintro ⟨hash, computed, own⟩
    obtain ⟨s, text, rfl⟩ := hashOf_eq_ok.1 computed
    exact ⟨s, text, own⟩
  · rintro ⟨s, text, own⟩
    exact ⟨_, hashOf_ok text, own⟩

/-- Where the hash separates the texts that occur, equal hashes cover equal texts. -/
theorem Hashed.covered_eq {e f : Entry} {texts : List Text} (apart : Collisionless texts)
    (he : e.Hashed) (hf : f.Hashed) (me : e.covered ∈ texts) (mf : f.covered ∈ texts)
    (same : e.entryHash = f.entryHash) : e.covered = f.covered := by
  obtain ⟨s, text, own⟩ := hashed_iff.1 he
  obtain ⟨t, text', own'⟩ := hashed_iff.1 hf
  rw [own, own', Value.str.injEq, Text.plain.injEq] at same
  rw [text, text', apart.injective s t (text ▸ me) (text' ▸ mf) same]

/-- Where the hash separates the texts that occur, none of them is hashed to the zeros before all
entries. -/
theorem Hashed.ne_genesis {e : Entry} {texts : List Text} (apart : Collisionless texts)
    (h : e.Hashed) (me : e.covered ∈ texts) : e.entryHash ≠ .str genesisHash := by
  obtain ⟨s, text, own⟩ := hashed_iff.1 h
  rw [own]
  exact fun same => apart.notGenesis s (text ▸ me) (Text.plain.inj (Value.str.inj same))

end Entry

/-- Two whole chains with one hash at their ends, entry by entry from there back to the beginning.
-/
theorem alike_of_tailHash {es fs : List Entry} (we : Whole es) (wf : Whole fs)
    (pe : ∀ e ∈ es, e.Plain) (pf : ∀ f ∈ fs, f.Plain)
    (apart : Collisionless ((es ++ fs).map Entry.covered))
    (same : tailHash (.str genesisHash) es = tailHash (.str genesisHash) fs) :
    List.Forall₂ Entry.Alike es fs := by
  induction es using List.reverseRecOn generalizing fs with
  | nil =>
      rcases List.eq_nil_or_concat fs with rfl | ⟨gs, f, rfl⟩
      · exact .nil
      · rw [List.concat_eq_append] at *
        rw [tailHash_append_singleton] at same
        exact absurd same.symm ((wf.hashed f (by simp)).ne_genesis apart (by simp))
  | append_singleton es e ih =>
      rw [tailHash_append_singleton] at same
      have own : e.Hashed := we.hashed e (by simp)
      rcases List.eq_nil_or_concat fs with rfl | ⟨gs, f, rfl⟩
      · exact absurd same (own.ne_genesis apart (by simp))
      · rw [List.concat_eq_append] at *
        rw [tailHash_append_singleton] at same
        obtain ⟨we, linkE, -⟩ := Whole.append_singleton.1 we
        obtain ⟨wf, linkF, own'⟩ := Whole.append_singleton.1 wf
        have covered := own.covered_eq apart own' (by simp) (by simp) same
        obtain ⟨record, prevHash⟩ :=
          (Entry.covered_eq_iff (pe e (by simp)) (pf f (by simp))).1 covered
        have before : tailHash (.str genesisHash) es = tailHash (.str genesisHash) gs := by
          obtain ⟨s, tail⟩ := we.tail_string
          rw [linkE, linkF, tail, Value.str_alike] at prevHash
          rw [tail, prevHash]
        have fewer : es ++ gs ⊆ es ++ [e] ++ (gs ++ [f]) := by grind
        have earlier := ih we wf (fun e he => pe e (List.mem_append_left _ he))
          (fun f hf => pf f (List.mem_append_left _ hf))
            (apart.mono (List.map_subset _ fewer)) before
        refine List.rel_append earlier (.cons ⟨record, prevHash, ?_⟩ .nil)
        obtain ⟨hash, -, text⟩ := own
        rw [← same, text, Value.str_alike]

/-- A log that verifies: its lines are the entries of a whole chain. -/
theorem verify_clean {files : Files} {path : FilePath} (h : verify files path = .ok []) :
    ∃ es, readAll files path = .ok es ∧ Whole es ∧ ∀ e ∈ es, e.Plain := by
  unfold verify at h
  obtain ⟨text, read, clean⟩ := bind_eq_ok h
  obtain ⟨es, reads, whole⟩ := breaches_clean.1 (lift_eq_ok.1 clean)
  refine ⟨es, ?_, whole, fun e he => ?_⟩
  · rw [readAll, read]
    exact lift_eq_ok.2 (entries_of_reads reads)
  · rw [← (forall₂_reads_iff.1 reads).2, List.mem_filterMap] at he
    obtain ⟨line, -, found⟩ := he
    exact (readLine?_eq_some.1 found).plain

theorem eq_of_alike_str {es fs : List Entry} {g : Entry → Value}
    (alike : List.Forall₂ (fun e f => (g e).Alike (g f)) es fs)
    (texts : ∀ e ∈ es, ∃ s, g e = .str s) : es.map g = fs.map g := by
  induction alike with
  | nil => rfl
  | cons head _ ih =>
      obtain ⟨⟨s, text⟩, rest⟩ := List.forall_mem_cons.1 texts
      rw [text, Value.str_alike] at head
      rw [List.map_cons, List.map_cons, ih rest, text, head]

/-- Two logs that verify and end in one hash hold one history: as many entries with the same hashes,
and records that differ at most in the order of members. -/
theorem verified_tail_history {files files' : Files} {path path' : FilePath}
    (whole : verify files path = .ok []) (whole' : verify files' path' = .ok []) :
    ∃ es fs, readAll files path = .ok es ∧ readAll files' path' = .ok fs ∧
      (Collisionless ((es ++ fs).map Entry.covered) →
        es.getLast?.map Entry.entryHash = fs.getLast?.map Entry.entryHash →
        List.Forall₂ Entry.Alike es fs ∧
          es.map Entry.prevHash = fs.map Entry.prevHash ∧
          es.map Entry.entryHash = fs.map Entry.entryHash) := by
  obtain ⟨es, read, we, pe⟩ := verify_clean whole
  obtain ⟨fs, read', wf, pf⟩ := verify_clean whole'
  refine ⟨es, fs, read, read', fun apart last => ?_⟩
  have alike := alike_of_tailHash we wf pe pf apart (by rw [tailHash, tailHash, last])
  have prevHashes : ∀ e ∈ es, ∃ s, e.prevHash = .str s := fun e he =>
    (we.prevHash_string e he).imp' _ fun _ text => text
  have entryHashes : ∀ e ∈ es, ∃ s, e.entryHash = .str s := fun e he =>
    (we.hashed e he).imp' _ fun _ own => own.2
  exact ⟨alike, eq_of_alike_str (alike.imp fun _ _ h => h.prevHash) prevHashes,
    eq_of_alike_str (alike.imp fun _ _ h => h.entryHash) entryHashes⟩

def pairEntry : Entry := .stamped [("a", .int 1), ("b", .int 2)] (.str genesisHash)

def pairRead (ms : List (Text × Value)) : Entry := { pairEntry with record := own ms }

def pairText (ms : List (Text × Value)) : String :=
  (Text.ofList (Json.write Json.spaced (.object ms))).string?.getD ""

def pairFiles (ms : List (Text × Value)) : Files := ⟨[(["audit.jsonl"], .file (pairText ms))]⟩

theorem pairEntry_plain : pairEntry.Plain :=
  ⟨Value.wellFormed_object.2 (by simp [pairEntry, Entry.stamped, Value.WellFormed]), by decide,
    trivial, trivial⟩

theorem pairEntry_hashed : pairEntry.Hashed := Entry.stamped_hashed (by decide +kernel)

section

variable {ms : List (Text × Value)} (perm : pairEntry.toValue.members.Perm ms)
include perm

theorem pairText_toList : Text.toList (pairText ms) = Json.write Json.spaced (.object ms) := by
  have text : (Text.ofList (Json.write Json.spaced (.object ms))).isString = true := by
    rw [Text.isString_ofList, Json.write_isChar Json.spaced_plain, ← Value.perm_isEncodable perm]
    rfl
  obtain ⟨s, plain⟩ := Text.isString_iff.1 text
  have same : pairText ms = s := by rw [pairText, plain]; rfl
  rw [same, ← plain, Text.toList_ofList]

theorem pairRead_reads : Reads (Text.toList (pairText ms)) (pairRead ms) := by
  have members : (Value.object pairEntry.toValue.members).WellFormed :=
    Value.putMember_wellFormed trivial pairEntry_plain.bound
  have distinct := (Value.wellFormed_object.1 members).1
  rw [pairText_toList perm]
  refine reads_write (Value.perm_wellFormed perm members) ?_ ?_
  · exact (Value.lookup_perm perm distinct prevHashField).symm.trans rfl
  · exact (Value.lookup_perm perm distinct entryHashField).symm.trans rfl

theorem pairRead_covered : (pairRead ms).covered = pairEntry.covered := by
  have plain := (pairRead_reads perm).plain
  refine (Entry.covered_eq_iff plain pairEntry_plain).2 ⟨?_, Value.str_alike.2 rfl⟩
  rw [Json.alike_iff_sorted plain.record pairEntry_plain.record, Json.sorted, Json.sorted]
  have record : (own ms).Perm pairEntry.record :=
    (perm.filter fun m : Text × Value => isOwn m.1).symm
  rw [Value.object.injEq]
  exact Json.sortedMembers_congr (record.map _) (Value.wellFormed_object.1 plain.record).1

theorem pairFiles_read : verify (pairFiles ms) ["audit.jsonl"] = .ok [] ∧
    readAll (pairFiles ms) ["audit.jsonl"] = .ok [pairRead ms] := by
  have read : (pairFiles ms).read ["audit.jsonl"] = .ok (pairText ms) := by rfl
  have line : Text.IsLine (Text.toList (pairText ms)) := by
    rw [pairText_toList perm]
    exact write_isLine ms
  have lines : List.Forall₂ Reads (writtenLines (Text.toList (pairText ms))) [pairRead ms] :=
    (writtenLines_line line).symm ▸ .cons (pairRead_reads perm) .nil
  have own : (pairRead ms).Hashed := by
    obtain ⟨s, text, hash⟩ := Entry.hashed_iff.1 pairEntry_hashed
    exact Entry.hashed_iff.2 ⟨s, (pairRead_covered perm).trans text, hash⟩
  rw [verify_of_read read, readAll_of_read read, lift_eq_ok, lift_eq_ok, breaches_clean]
  exact ⟨⟨_, lines, Whole.append_singleton.2 ⟨.empty, rfl, own⟩⟩, entries_of_reads lines⟩

end

theorem pairEntry_ne_genesis : pairEntry.entryHash ≠ .str genesisHash := by
  intro same
  have digest : Digest.hexDigest (hashedBytes pairEntry.record pairEntry.prevHash) = genesisHash :=
    Text.plain.inj (Value.str.inj same)
  exact absurd digest (by decide +kernel)

/-- Two logs of one entry, whose members stand in opposite orders. -/
theorem verified_tail_history_turned :
    let ms := pairEntry.toValue.members
    verify (pairFiles ms) ["audit.jsonl"] = .ok [] ∧
      verify (pairFiles ms.reverse) ["audit.jsonl"] = .ok [] ∧
      ∃ es fs, readAll (pairFiles ms) ["audit.jsonl"] = .ok es ∧
        readAll (pairFiles ms.reverse) ["audit.jsonl"] = .ok fs ∧
        es.map Entry.record ≠ fs.map Entry.record ∧ List.Forall₂ Entry.Alike es fs := by
  intro ms
  have turned : ms.Perm ms.reverse := (List.reverse_perm ms).symm
  obtain ⟨whole, read⟩ := pairFiles_read (List.Perm.refl ms)
  obtain ⟨whole', read'⟩ := pairFiles_read turned
  obtain ⟨es, fs, hes, hfs, same⟩ := verified_tail_history whole whole'
  cases read.symm.trans hes
  cases read'.symm.trans hfs
  have covered : ∀ t ∈ ([pairRead ms] ++ [pairRead ms.reverse]).map Entry.covered,
      t = pairEntry.covered := by
    simp [pairRead_covered (List.Perm.refl ms), pairRead_covered turned]
  have apart : Collisionless (([pairRead ms] ++ [pairRead ms.reverse]).map Entry.covered) := by
    refine ⟨fun s t hs ht _ => Text.plain.inj ((covered s hs).trans (covered t ht).symm),
      fun s hs digest => pairEntry_ne_genesis ?_⟩
    obtain ⟨t, text, hash⟩ := Entry.hashed_iff.1 pairEntry_hashed
    cases text.symm.trans (covered s hs).symm
    rw [hash, digest]
  exact ⟨whole, whole', _, _, hes, hfs, by decide, (same apart rfl).1⟩

end ReleaseGate.Audit
