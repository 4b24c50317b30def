import ReleaseGate.Files
import ReleaseGate.Proofs.Steps

/-!
What the file operations keep. Making directories leaves every file with its text, and a text that
is appended to a file stands behind what the file held. In a directory that is there, a file can be
made under every name that is free and fits, and under no other.
-/

namespace ReleaseGate

theorem FilePath.isEncodable_of_namesFit {p : FilePath} (h : p.namesFit = true) :
    p.isEncodable = true := by
  refine List.all_eq_true.2 fun n hn => ?_
  have fits := List.all_eq_true.1 h n hn
  cases size : nameSize? n with
  | none => simp [size] at fits
  | some k => rfl

namespace Files

theorem access_eq_ok {f : Files} {p : FilePath} {e : Option FileEntry} :
    f.access p = .ok e ↔
      p.above.any f.isFile = false ∧ p.namesFit = true ∧ f.lookup p = e := by
  have encodable := FilePath.isEncodable_of_namesFit (p := p)
  unfold access
  cases p.above.any f.isFile <;> cases fit : p.namesFit <;> cases known : p.isEncodable <;>
    simp_all

theorem read_eq_ok {f : Files} {p : FilePath} {s : String} :
    f.read p = .ok s ↔ f.access p = .ok (some (.file s)) := by
  constructor
  · intro h
    obtain ⟨e, found, h⟩ := bind_eq_ok h
    cases e with
    | none => cases h
    | some e =>
        cases e with
        | directory => cases h
        | file old => exact Except.ok.inj h ▸ found
  · intro h
    rw [read, h]
    rfl

theorem lookup_of_read {f : Files} {p : FilePath} {s : String} (h : f.read p = .ok s) :
    p.above.any f.isFile = false ∧ p.namesFit = true ∧ f.lookup p = some (.file s) :=
  access_eq_ok.1 (read_eq_ok.1 h)

theorem read_of_lookup {f : Files} {p : FilePath} {s : String}
    (above : p.above.any f.isFile = false)
    (fit : p.namesFit = true) (found : f.lookup p = some (.file s)) : f.read p = .ok s :=
  read_eq_ok.2 (access_eq_ok.2 ⟨above, fit, found⟩)

theorem ordinary_of_file {f : Files} {p : FilePath} {s : String} (h : f.lookup p = some (.file s)) :
    ¬ (p = [] ∨ p = [FilePath.rootName]) := by
  intro special
  rw [lookup, if_pos special] at h
  cases h

theorem ordinary_of_missing {f : Files} {p : FilePath} (h : f.lookup p = none) :
    ¬ (p = [] ∨ p = [FilePath.rootName]) := by
  intro special
  rw [lookup, if_pos special] at h
  cases h

theorem lookup_put {p : FilePath} (hp : ¬ (p = [] ∨ p = [FilePath.rootName])) (f : Files)
    (e : FileEntry) (q : FilePath) :
    (f.put p e).lookup q = if q = p then some e else f.lookup q := by
  have others : q ≠ p → (f.entries.filter fun x => x.1 != p).lookup q = f.entries.lookup q := by
    intro hq
    induction f.entries with
    | nil => rfl
    | cons x xs ih =>
        obtain ⟨r, d⟩ := x
        by_cases hr : r = p
        · have skip : (q == r) = false := by simpa [hr] using hq
          simp [hr, List.lookup_cons, ih, hr ▸ skip]
        · simp [hr, List.lookup_cons, ih]
  by_cases hq : q = p
  · subst hq
    simp [lookup, put, hp]
  · have skip : (q == p) = false := by simpa using hq
    simp [lookup, put, hq, List.lookup_cons, skip, others]

theorem makeAll_lookup (ps : List FilePath) (f : Files) (q : FilePath) :
    (ps.foldl (fun f p => if (f.lookup p).isNone then f.put p .directory else f) f).lookup q =
      if q ∈ ps ∧ f.lookup q = none then some .directory else f.lookup q := by
  induction ps generalizing f with
  | nil => simp
  | cons p ps ih =>
      have first : (if (f.lookup p).isNone then f.put p .directory else f).lookup q =
          if q = p ∧ f.lookup q = none then some .directory else f.lookup q := by
        split
        · rename_i missing
          rw [Option.isNone_iff_eq_none] at missing
          rw [lookup_put (ordinary_of_missing missing)]
          by_cases here : q = p
          · simp [here, missing]
          · simp [here]
        · rename_i found
          rw [if_neg]
          rintro ⟨rfl, missing⟩
          exact found (Option.isNone_iff_eq_none.2 missing)
      rw [List.foldl_cons, ih, first]
      by_cases here : q = p
      · subst here
        by_cases missing : f.lookup q = none <;> simp [missing]
      · simp [here]

theorem length_lt_of_mem_above {p q : FilePath} (h : q ∈ p.above) : q.length < p.length := by
  obtain ⟨n, hn, rfl⟩ := List.mem_map.1 h
  have few := List.mem_range.1 hn
  rw [List.length_take]
  omega

/-- What is written at a path that is not above another does not stand in the way to that one. -/
theorem clear_put {f : Files} {p q : FilePath} (ordinary : ¬ (q = [] ∨ q = [FilePath.rootName]))
    (outside : q ∉ p.above) (clear : p.above.any f.isFile = false) (e : FileEntry) :
    p.above.any (f.put q e).isFile = false := by
  refine List.any_eq_false.2 fun r hr => ?_
  have other : r ≠ q := fun same => outside (same ▸ hr)
  rw [isFile, lookup_put ordinary, if_neg other]
  exact List.any_eq_false.1 clear r hr

/-- Every file of the first is in the second with its text, and the second has no other files. -/
def SameFiles (f g : Files) : Prop :=
  ∀ p, (∀ s, f.lookup p = some (.file s) → g.lookup p = some (.file s)) ∧ g.isFile p = f.isFile p

theorem SameFiles.refl (f : Files) : SameFiles f f := fun _ => ⟨fun _ h => h, rfl⟩

theorem SameFiles.trans {f g h : Files} (fg : SameFiles f g) (gh : SameFiles g h) : SameFiles f h :=
  fun p => ⟨fun s hs => (gh p).1 s ((fg p).1 s hs), (gh p).2.trans (fg p).2⟩

theorem SameFiles.clear {f g : Files} (same : SameFiles f g) (p : FilePath) :
    p.above.any g.isFile = p.above.any f.isFile :=
  congrArg p.above.any (funext fun q => (same q).2)

theorem SameFiles.read {f g : Files} (same : SameFiles f g) {p : FilePath} {s : String}
    (h : f.read p = .ok s) : g.read p = .ok s := by
  obtain ⟨above, fit, found⟩ := lookup_of_read h
  exact read_of_lookup ((same.clear p).trans above) fit ((same p).1 s found)

theorem makeAll_sameFiles (ps : List FilePath) (f : Files) :
    SameFiles f (ps.foldl (fun f q => if (f.lookup q).isNone then f.put q .directory else f)
      f) := by
  intro q
  rw [isFile, isFile, makeAll_lookup]
  split
  · rename_i missing
    rw [missing.2]
    exact ⟨fun _ file => (nomatch file), rfl⟩
  · exact ⟨fun _ h => h, rfl⟩

/-- A directory that is made was there before, or it is put there with those above it. -/
theorem makeDirectory_cases {f g : Files} {p : FilePath} (h : f.makeDirectory p = .ok g) :
    f.access p = .ok (some .directory) ∧ g = f ∨
      f.access p = .ok none ∧
        g = (p.above ++ [p]).foldl
          (fun f q => if (f.lookup q).isNone then f.put q .directory else f) f := by
  obtain ⟨e, found, h⟩ := bind_eq_ok h
  cases e with
  | none => exact Or.inr ⟨found, (Except.ok.inj h).symm⟩
  | some e =>
      cases e with
      | directory => exact Or.inl ⟨found, (Except.ok.inj h).symm⟩
      | file s => cases h

theorem makeDirectory_sameFiles {f g : Files} {p : FilePath} (h : f.makeDirectory p = .ok g) :
    SameFiles f g := by
  obtain ⟨-, rfl⟩ | ⟨-, rfl⟩ := makeDirectory_cases h
  · exact SameFiles.refl g
  · exact makeAll_sameFiles _ f

/-- The directory of a file can be made: it is there, or nothing stands in its way. -/
theorem makeDirectory_parent {f : Files} {p : FilePath} {s : String} (h : f.read p = .ok s) :
    ∃ g, f.makeDirectory p.parent = .ok g := by
  obtain ⟨above, fit, found⟩ := lookup_of_read h
  have ordinary := ordinary_of_file found
  have parent : p.parent = p.dropLast := if_neg fun root => ordinary (Or.inr root)
  have clear : (FilePath.above p.dropLast).any f.isFile = false := by
    refine List.any_eq_false.2 fun q hq => List.any_eq_false.1 above q ?_
    obtain ⟨n, hn, rfl⟩ := List.mem_map.1 hq
    rw [List.length_dropLast, List.mem_range] at hn
    refine List.mem_map.2 ⟨n, List.mem_range.2 (by omega), ?_⟩
    rw [List.dropLast_eq_take, List.take_take, Nat.min_eq_left (by omega)]
  have short : FilePath.namesFit p.dropLast = true := by
    refine List.all_eq_true.2 fun n hn => List.all_eq_true.1 fit n ?_
    exact List.dropLast_sublist p |>.subset hn
  have noFile : f.isFile p.dropLast = false := by
    by_cases single : p.length ≤ 1
    · have root : p.dropLast = [] := by
        rw [List.dropLast_eq_take, show p.length - 1 = 0 by omega, List.take_zero]
      rw [root]
      rfl
    · refine Bool.eq_false_iff.2 (List.any_eq_false.1 above _ ?_)
      refine List.mem_map.2 ⟨p.length - 2, List.mem_range.2 (by omega), ?_⟩
      rw [List.dropLast_eq_take, show p.length - 2 + 1 = p.length - 1 by omega]
  rw [parent, makeDirectory, access, clear, short, FilePath.isEncodable_of_namesFit short]
  unfold isFile at noFile
  cases there : f.lookup p.dropLast with
  | none => exact ⟨_, rfl⟩
  | some e =>
      cases e with
      | directory => exact ⟨_, rfl⟩
      | file s =>
          rw [there] at noFile
          cases noFile

theorem append_read {f : Files} {p : FilePath} {s : String} (h : f.read p = .ok s) (t : String) :
    ∃ g, f.append p t = .ok g ∧ g.read p = .ok (s ++ t) := by
  obtain ⟨above, fit, found⟩ := lookup_of_read h
  have ordinary := ordinary_of_file found
  have access := read_eq_ok.1 h
  have below : p ∉ p.above := fun h => Nat.lt_irrefl _ (length_lt_of_mem_above h)
  refine ⟨f.put p (.file (s ++ t)), ?_, read_of_lookup (clear_put ordinary below above _) fit ?_⟩
  · rw [append, access]
    simp only [write, access, bind, Except.bind, pure, Except.pure]
  · rw [lookup_put ordinary, if_pos rfl]

theorem makeDirectory_access {f g : Files} {p : FilePath} (h : f.makeDirectory p = .ok g) :
    g.access p = .ok (some .directory) := by
  have same := makeDirectory_sameFiles h
  obtain ⟨there, rfl⟩ | ⟨vacant, rfl⟩ := makeDirectory_cases h
  · exact there
  · obtain ⟨clear, short, missing⟩ := access_eq_ok.1 vacant
    refine access_eq_ok.2 ⟨(same.clear p).trans clear, short, ?_⟩
    rw [makeAll_lookup, if_pos ⟨by simp, missing⟩]

theorem makeDirectory_lookup {f g : Files} {p q : FilePath} (h : f.makeDirectory p = .ok g)
    (below : p.length < q.length) : g.lookup q = f.lookup q := by
  obtain ⟨-, rfl⟩ | ⟨-, rfl⟩ := makeDirectory_cases h
  · rfl
  · have outside : q ∉ p.above ++ [p] := by
      intro member
      obtain above | here := List.mem_append.1 member
      · exact Nat.lt_asymm below (length_lt_of_mem_above above)
      · exact absurd (List.mem_singleton.1 here ▸ below) (Nat.lt_irrefl _)
    rw [makeAll_lookup, if_neg fun both => outside both.1]

theorem makeDirectory_of_access {f : Files} {p : FilePath}
    (h : f.access p = .ok (some .directory)) : f.makeDirectory p = .ok f := by
  rw [makeDirectory, h]
  rfl

section

variable {f : Files} {p : FilePath} {n : Text}

theorem mem_above_concat {q : FilePath} (h : q ∈ FilePath.above (p ++ [n])) :
    q ∈ p.above ∨ q = p := by
  obtain ⟨k, hk, rfl⟩ := List.mem_map.1 h
  rw [List.mem_range, List.length_append, List.length_singleton] at hk
  rw [List.take_append_of_le_length (by omega)]
  by_cases last : k + 1 = p.length
  · exact Or.inr (last ▸ List.take_length)
  · exact Or.inl (List.mem_map.2 ⟨k, List.mem_range.2 (by omega), rfl⟩)

theorem access_concat (there : f.access p = .ok (some .directory))
    (fits : (FilePath.nameSize? n).any (· ≤ 255) = true) :
    f.access (p ++ [n]) = .ok (f.lookup (p ++ [n])) := by
  obtain ⟨clear, short, found⟩ := access_eq_ok.1 there
  refine access_eq_ok.2 ⟨List.any_eq_false.2 fun q hq => ?_, ?_, rfl⟩
  · obtain above | rfl := mem_above_concat hq
    · exact List.any_eq_false.1 clear q above
    · simp [isFile, found]
  · simpa [FilePath.namesFit, fits] using short

theorem createNew_taken (there : f.access p = .ok (some .directory))
    (fits : (FilePath.nameSize? n).any (· ≤ 255) = true)
    (taken : (f.lookup (p ++ [n])).isSome = true)
    (content : String) : f.createNew (p ++ [n]) content = .error .alreadyExists := by
  obtain ⟨e, found⟩ := Option.isSome_iff_exists.1 taken
  rw [createNew, access_concat there fits, found]
  rfl

theorem createNew_free (there : f.access p = .ok (some .directory))
    (fits : (FilePath.nameSize? n).any (· ≤ 255) = true)
    (free : f.lookup (p ++ [n]) = none) (content : String) :
    f.createNew (p ++ [n]) content = .ok (f.put (p ++ [n]) (.file content)) := by
  have ordinary : p ++ [n] ≠ [FilePath.rootName] := fun root =>
    ordinary_of_missing free (Or.inr root)
  have parent : FilePath.parent (p ++ [n]) = p := by
    rw [FilePath.parent, if_neg ordinary, List.dropLast_concat]
  rw [createNew, access_concat there fits, free]
  simp only [bind, Except.bind, write, access_concat there fits, free, parent,
    (access_eq_ok.1 there).2.2]
  rfl

theorem access_put_concat (there : f.access p = .ok (some .directory))
    (free : f.lookup (p ++ [n]) = none) (e : FileEntry) :
    (f.put (p ++ [n]) e).access p = .ok (some .directory) := by
  obtain ⟨clear, short, found⟩ := access_eq_ok.1 there
  have ordinary := ordinary_of_missing free
  have longer : p.length < (p ++ [n]).length := by simp
  have outside : p ++ [n] ∉ p.above := fun h =>
    Nat.lt_asymm longer (length_lt_of_mem_above h)
  have other : p ≠ p ++ [n] := fun same => absurd (congrArg List.length same) (Nat.ne_of_lt longer)
  refine access_eq_ok.2 ⟨clear_put ordinary outside clear e, short, ?_⟩
  rw [lookup_put ordinary, if_neg other, found]

end

end Files

end ReleaseGate
