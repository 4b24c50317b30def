import ReleaseGate.Execution.Store
import ReleaseGate.Proofs.Files
import ReleaseGate.Proofs.Value.Places

/-!
Two kinds of stores side by side. A store in memory keeps the ids themselves, a directory keeps
their markers, and each answers any sequence of calls as the names say under which it keeps the ids.
Ids of one marker are one id to a directory. So the two answer alike until an id is asked for whose
marker was made for another id.
-/

namespace ReleaseGate.Store

/-- A call of a store. A directory can be opened again between two others. -/
inductive Call where
  | has (id : Text)
  | add (id : Text)
  | claim (id : Text)
  | reopen

def isNamed (name : Text → Text) (ids : List Text) (id : Text) : Bool :=
  ids.any fun other => name other == name id

namespace Call

def id? : Call → Option Text
  | .has id | .add id | .claim id => some id
  | .reopen => none

def asked : Call → Option Text
  | .has id | .claim id => some id
  | .add _ | .reopen => none

def taken : Call → Option Text
  | .add id | .claim id => some id
  | .has _ | .reopen => none

def apply (s : Store) (files : Files) : Call → Except Error (Option Bool) × Store × Files
  | .has id => ((s.has files (.str id)).map some, s, files)
  | .add id =>
      let (done, after) := s.add files (.str id)
      (done.map fun _ => none, after)
  | .claim id =>
      let (free, after) := s.claim files (.str id)
      (free.map some, after)
  | .reopen =>
      match s with
      | .directory path =>
          match openDirectory files path with
          | .ok (s, files) => (.ok none, s, files)
          | .error e => (.error e, s, files)
      | s => (.ok none, s, files)

def run (s : Store) (files : Files) :
    List Call → List (Except Error (Option Bool)) × Store × Files
  | [] => ([], s, files)
  | c :: cs =>
      let (answer, s, files) := c.apply s files
      let (answers, after) := run s files cs
      (answer :: answers, after)

/-- What a claim ends in when ids are kept under names, some are there already, and of a new id more
than the name may have to be written. -/
def claimed (name : Text → Text) (writable : Text → Bool) (earlier : List Text) (id : Text) :
    Except Error Bool :=
  if isNamed name earlier id then .ok false
  else if writable id then .ok true
  else .error (.misfit .notEncodable)

def answer (name : Text → Text) (writable : Text → Bool) (earlier : List Text) :
    Call → Except Error (Option Bool)
  | .has id => .ok (some (isNamed name earlier id))
  | .add id => (claimed name writable earlier id).map fun _ => none
  | .claim id => (claimed name writable earlier id).map some
  | .reopen => .ok none

def answers (name : Text → Text) (writable : Text → Bool) (earlier : List Text) :
    List Call → List (Except Error (Option Bool))
  | [] => []
  | c :: cs => c.answer name writable earlier ::
      answers name writable (earlier ++ c.taken.toList) cs

end Call

theorem isNamed_concat (name : Text → Text) (ids : List Text) (id x : Text) :
    isNamed name (ids ++ [id]) x = (isNamed name ids x || name id == name x) := by
  simp [isNamed]

theorem isNamed_concat_of_isNamed {name : Text → Text} {ids : List Text} {id : Text}
    (there : isNamed name ids id = true) (x : Text) :
    isNamed name (ids ++ [id]) x = isNamed name ids x := by
  rw [isNamed_concat]
  by_cases same : name id = name x
  · rw [isNamed, same] at there
    rw [isNamed, there, Bool.true_or]
  · rw [beq_false_of_ne same, Bool.or_false]

/-- A relation between a store and the ids that it has taken, for stores that keep ids under names:
every call answers by the names and leads on to the ids that are then taken. -/
structure KeepsBy (name : Text → Text) (writable : Text → Bool) (Admits : Text → Prop)
    (Holds : Store → Files → List Text → Prop) : Prop where
  has {s files ids id} : Holds s files ids → Admits id →
    s.has files (.str id) = .ok (isNamed name ids id)
  claim {s files ids id} : Holds s files ids → Admits id →
    ∃ s' files', s.claim files (.str id) = (Call.claimed name writable ids id, s', files') ∧
      Holds s' files' (ids ++ [id])
  reopen {s files ids} : Holds s files ids → Call.reopen.apply s files = (.ok none, s, files)

namespace KeepsBy

variable {name : Text → Text} {writable : Text → Bool} {Admits : Text → Prop}
  {Holds : Store → Files → List Text → Prop} {s : Store} {files : Files} {ids : List Text}

theorem add {id : Text} (keeps : KeepsBy name writable Admits Holds) (h : Holds s files ids)
    (admits : Admits id) :
    ∃ s' files', s.add files (.str id) =
        ((Call.claimed name writable ids id).map fun _ => (), s', files') ∧
      Holds s' files' (ids ++ [id]) := by
  obtain ⟨s', files', claimed, held⟩ := keeps.claim h admits
  refine ⟨s', files', ?_, held⟩
  cases s with
  | memory _ | directory _ =>
      rw [Store.add, claimed]
      exact fun _ same => nomatch same
  | fixed _ => cases keeps.has h admits

theorem apply {c : Call} (keeps : KeepsBy name writable Admits Holds) (h : Holds s files ids)
    (admits : ∀ id ∈ c.id?, Admits id) :
    ∃ s' files', c.apply s files = (c.answer name writable ids, s', files') ∧
      Holds s' files' (ids ++ c.taken.toList) := by
  cases c with
  | has id =>
      refine ⟨s, files, ?_, by simpa [Call.taken] using h⟩
      rw [Call.apply, keeps.has h (admits id rfl)]
      rfl
  | add id =>
      obtain ⟨s', files', added, held⟩ := keeps.add h (admits id rfl)
      refine ⟨s', files', ?_, held⟩
      rw [Call.apply, added]
      simp only [Call.answer]
      cases Call.claimed name writable ids id <;> rfl
  | claim id =>
      obtain ⟨s', files', claimed, held⟩ := keeps.claim h (admits id rfl)
      refine ⟨s', files', ?_, held⟩
      rw [Call.apply, claimed]
      rfl
  | reopen => exact ⟨s, files, keeps.reopen h, by simpa [Call.taken] using h⟩

/-- A store that keeps its marks by name answers a whole run of calls by name. -/
theorem run {cs : List Call} (keeps : KeepsBy name writable Admits Holds) (h : Holds s files ids)
    (admits : ∀ c ∈ cs, ∀ id ∈ c.id?, Admits id) :
    (Call.run s files cs).1 = Call.answers name writable ids cs := by
  induction cs generalizing s files ids with
  | nil => rfl
  | cons c cs ih =>
      obtain ⟨first, rest⟩ := List.forall_mem_cons.1 admits
      obtain ⟨s', files', answered, held⟩ := keeps.apply h first
      simp only [Call.run, Call.answers, answered, ih held rest]

end KeepsBy

/-- The store is in memory, and the ids in it are these; in what order and how often makes no
difference. -/
def Recalls (s : Store) (_ : Files) (ids : List Text) : Prop :=
  ∃ claimed, s = .memory claimed ∧
    ∀ id, (claimed.any fun other => other.same (.str id)) = isNamed (fun id => id) ids id

theorem recalls_empty (files : Files) : Recalls empty files [] := ⟨[], rfl, fun _ => rfl⟩

theorem isClaimed_recalled {claimed : List Value} {ids : List Text} {id : Text}
    (known : (claimed.any fun other => other.same (.str id)) = isNamed (fun id => id) ids id) :
    isClaimed claimed (.str id) = .ok (isNamed (fun id => id) ids id) :=
  congrArg Except.ok known

theorem recalls_keepsBy : KeepsBy (fun id => id) (fun _ => true) (fun _ => True) Recalls where
  has := by
    rintro s files ids id ⟨claimed, rfl, known⟩ -
    exact isClaimed_recalled (known id)
  claim := by
    rintro s files ids id ⟨claimed, rfl, known⟩ -
    rw [Store.claim, isClaimed_recalled (known id), Call.claimed]
    cases there : isNamed (fun id => id) ids id with
    | true =>
        exact ⟨_, _, rfl, claimed, rfl,
          fun x => (known x).trans (isNamed_concat_of_isNamed there x).symm⟩
    | false =>
        refine ⟨_, _, rfl, _, rfl, fun x => ?_⟩
        have last : Value.same (.str id) (.str x) = (id == x) := by
          rw [Bool.eq_iff_iff, Value.same_str_iff, beq_iff_eq, Value.str.injEq]
        rw [List.any_append, known, isNamed_concat, List.any_cons, List.any_nil, Bool.or_false,
          last]
  reopen := by
    rintro s files ids ⟨claimed, rfl, -⟩
    rfl

/-- The directory is there, and its markers are those of the ids. -/
structure Marks (path : FilePath) (s : Store) (files : Files) (ids : List Text) : Prop where
  store : s = .directory path
  there : files.access path = .ok (some .directory)
  marked : ∀ id, (files.lookup (path ++ [markerName id])).isSome = isNamed markerName ids id

def Fits (id : Text) : Prop := (FilePath.nameSize? (markerName id)).any (· ≤ 255) = true

instance (id : Text) : Decidable (Fits id) :=
  inferInstanceAs (Decidable ((FilePath.nameSize? (markerName id)).any (· ≤ 255) = true))

def isString (id : Text) : Bool := id.string?.isSome

theorem lift_encoded {α : Type} (id : Text) (a : α) :
    Misfit.lift (id.encoded.map fun _ => a) =
      if isString id then .ok a else .error (.misfit .notEncodable) := by
  cases id <;> rfl

section

variable {path : FilePath} {s : Store} {files made : Files} {ids : List Text} {id : Text}

theorem Marks.claim (h : Marks path s files ids) (fits : Fits id) :
    ∃ files', s.claim files (.str id) = (Call.claimed markerName isString ids id, s, files') ∧
      Marks path s files' (ids ++ [id]) := by
  obtain ⟨rfl, there, marked⟩ := h
  have found := marked id
  cases taken : isNamed markerName ids id with
  | true =>
      rw [taken] at found
      refine ⟨files, ?_, rfl, there,
        fun x => (marked x).trans (isNamed_concat_of_isNamed taken x).symm⟩
      simp only [Store.claim, marker, mark, Files.createNew_taken there fits found, Call.claimed,
        taken, if_true]
  | false =>
      rw [taken, Option.isSome_eq_false_iff, Option.isNone_iff_eq_none] at found
      refine ⟨files.put (path ++ [markerName id]) (.file (id.string?.getD "")), ?_, rfl,
        Files.access_put_concat there found _, fun x => ?_⟩
      · have own : (Value.str id).display = id := rfl
        simp only [Store.claim, marker, mark, own, Files.createNew_free there fits found,
          Call.claimed, taken, lift_encoded, Bool.false_eq_true, if_false]
      · rw [Files.lookup_put (Files.ordinary_of_missing found), isNamed_concat, ← marked x]
        by_cases same : markerName id = markerName x
        · simp [same]
        · simp [same, Ne.symm same]

/-- A store on disk keeps ids by the file name it gives them, and takes only texts with bytes. -/
theorem marks_keepsBy (path : FilePath) : KeepsBy markerName isString Fits (Marks path) where
  has := by
    rintro s files ids id ⟨rfl, there, marked⟩ fits
    simp only [Store.has, marker, bind, Except.bind, Files.contains,
      Files.access_concat there fits, marked id]
    rfl
  claim h fits := by
    obtain ⟨files', claimed, held⟩ := h.claim fits
    exact ⟨_, files', claimed, held⟩
  reopen := by
    rintro s files ids ⟨rfl, there, -⟩
    rw [Call.apply, openDirectory, Files.makeDirectory_of_access there]
    rfl

theorem marks_opened (opened : openDirectory files path = .ok (s, made))
    (vacant : ∀ id, files.lookup (path ++ [markerName id]) = none) : Marks path s made [] := by
  obtain ⟨g, lifted, same⟩ := bind_eq_ok opened
  have making := mapError_eq_ok.1 lifted
  cases same
  refine ⟨rfl, Files.makeDirectory_access making, fun id => ?_⟩
  rw [Files.makeDirectory_lookup making (by simp), vacant]
  rfl

end

theorem markerName_plain {id : Text} (plain : id.toList.all isMarkerChar = true) :
    markerName id = id ++ ".claimed" := by
  have same : (id.toList.map fun c => if isMarkerChar c then c else CodePoint.char '_') =
    id.toList := by
    refine (List.map_congr_left fun c hc => ?_).trans (List.map_id _)
    rw [if_pos (List.all_eq_true.1 plain c hc), id_eq]
  rw [markerName, same, Text.ofList_toList]

/-- Ids of plain characters do not share a marker. -/
theorem markerName_inj {x y : Text} (hx : x.toList.all isMarkerChar = true)
    (hy : y.toList.all isMarkerChar = true) (h : markerName x = markerName y) : x = y := by
  rw [markerName_plain hx, markerName_plain hy, ← Text.toList_inj, Text.toList_append,
    Text.toList_append] at h
  exact Text.toList_inj.1 (List.append_cancel_right h)

theorem isString_of_markerChars {id : Text} (h : id.toList.all isMarkerChar = true) :
    isString id = true := by
  cases id with
  | plain s => rfl
  | lone before u after => simp [Text.toList, isMarkerChar] at h

namespace Call

theorem id?_of_asked {c : Call} {id : Text} (h : id ∈ c.asked) : id ∈ c.id? := by
  cases c with
  | has _ | claim _ => exact h
  | add _ | reopen => cases h

theorem id?_of_taken {c : Call} {id : Text} (h : id ∈ c.taken) : id ∈ c.id? := by
  cases c with
  | add _ | claim _ => exact h
  | has _ | reopen => cases h

theorem taken_cons (c : Call) (cs : List Call) :
    (c :: cs).filterMap taken = c.taken.toList ++ cs.filterMap taken := by
  cases c <;> rfl

/-- Two ways of keeping ids answer alike exactly if they answer each call alike behind those before
it. -/
theorem answers_eq_iff {name name' : Text → Text} {writable writable' : Text → Bool}
    {earlier : List Text} {cs : List Call} :
    answers name writable earlier cs = answers name' writable' earlier cs ↔
      ∀ before c after, cs = before ++ c :: after →
        c.answer name writable (earlier ++ before.filterMap taken) =
          c.answer name' writable' (earlier ++ before.filterMap taken) := by
  induction cs generalizing earlier with
  | nil => simp [answers]
  | cons c cs ih =>
      simp only [answers, List.cons.injEq, ih]
      constructor
      · rintro ⟨first, rest⟩ before d after split
        cases before with
        | nil =>
            cases split
            simpa using first
        | cons b before =>
            cases split
            simpa only [taken_cons, List.append_assoc] using rest before d after rfl
      · intro every
        refine ⟨by simpa using every [] c cs rfl, fun before d after split => ?_⟩
        have one := every (c :: before) d after (congrArg (c :: ·) split)
        simpa only [taken_cons, List.append_assoc] using one

theorem isNamed_eq_iff {name : Text → Text} {earlier : List Text} {id : Text} :
    isNamed name earlier id = isNamed (fun id => id) earlier id ↔
      ∀ other ∈ earlier, name other = name id → id ∈ earlier := by
  rw [Bool.eq_iff_iff]
  simp only [isNamed, List.any_eq_true, beq_iff_eq, exists_eq_right]
  constructor
  · exact fun agree other member shared => agree.1 ⟨other, member, shared⟩
  · exact fun apart => ⟨fun ⟨other, member, shared⟩ => apart other member shared,
      fun member => ⟨id, member, rfl⟩⟩

/-- An answer that goes by names is that of the id itself unless the name is there without it, or
the id is new and cannot be written. -/
theorem answer_eq_iff {name : Text → Text} {writable : Text → Bool} {earlier : List Text}
    {c : Call} :
    c.answer name writable earlier = c.answer (fun id => id) (fun _ => true) earlier ↔
      (∀ id ∈ c.asked, ∀ other ∈ earlier, name other = name id → id ∈ earlier) ∧
      ∀ id ∈ c.taken, writable id = true ∨ ∃ other ∈ earlier, name other = name id := by
  have there (id : Text) : isNamed name earlier id = true ↔ ∃ other ∈ earlier,
    name other = name id := by
    simp only [isNamed, List.any_eq_true, beq_iff_eq]
  cases c with
  | has id => simpa [answer, asked, taken] using isNamed_eq_iff
  | add id =>
      simp only [answer, asked, taken, claimed, Option.mem_some_iff, forall_eq', ← there]
      cases isNamed name earlier id <;> cases writable id <;>
        cases isNamed (fun id => id) earlier id <;> simp [Except.map]
  | claim id =>
      simp only [answer, asked, taken, claimed, Option.mem_some_iff, forall_eq', ← isNamed_eq_iff,
        ← there]
      cases isNamed name earlier id <;> cases writable id <;>
        cases isNamed (fun id => id) earlier id <;> simp [Except.map]
  | reopen => simp [answer, asked, taken]

end Call

/-- A directory without markers and a store in memory are given the same calls in any order, the
directory being opened again in between as often as one likes. Memory answers as it must for ids
that are kept as they are, and the directory for ids that are kept under the names of their markers,
of which a new one with half a surrogate pair ends its call in the encoding error. All answers are
the same if and only if no id is asked for whose marker is there for another id alone, and every id
whose marker is made is a string; in particular if all ids consist of characters that may stand in a
marker's name. -/
theorem directory_answers {path : FilePath} {s : Store} {files made : Files} {cs : List Call}
    (opened : openDirectory files path = .ok (s, made))
    (vacant : ∀ id, files.lookup (path ++ [markerName id]) = none)
    (fits : ∀ c ∈ cs, ∀ id ∈ c.id?, Fits id) :
    let fromDirectory := (Call.run s made cs).1
    let fromMemory := (Call.run empty files cs).1
    fromDirectory = Call.answers markerName isString [] cs ∧
    fromMemory = Call.answers (fun id => id) (fun _ => true) [] cs ∧
    (fromDirectory = fromMemory ↔
      ∀ before c after, cs = before ++ c :: after →
        (∀ id ∈ c.asked, ∀ other ∈ before.filterMap Call.taken, markerName other = markerName id →
          id ∈ before.filterMap Call.taken) ∧
        ∀ id ∈ c.taken, isString id = true ∨
          ∃ other ∈ before.filterMap Call.taken, markerName other = markerName id) ∧
    ((∀ c ∈ cs, ∀ id ∈ c.id?, id.toList.all isMarkerChar = true) → fromDirectory = fromMemory) := by
  have ran := (marks_keepsBy path).run (marks_opened opened vacant) fits
  have ran' := recalls_keepsBy.run (recalls_empty files) fun c (_ : c ∈ cs) _ _ => trivial
  have agree : Call.answers markerName isString [] cs =
      Call.answers (fun id => id) (fun _ => true) [] cs ↔
      ∀ before c after, cs = before ++ c :: after →
        (∀ id ∈ c.asked, ∀ other ∈ before.filterMap Call.taken, markerName other = markerName id →
          id ∈ before.filterMap Call.taken) ∧
        ∀ id ∈ c.taken, isString id = true ∨
          ∃ other ∈ before.filterMap Call.taken, markerName other = markerName id := by
    simp only [Call.answers_eq_iff, List.nil_append, Call.answer_eq_iff]
  intro fromDirectory fromMemory
  rw [show fromDirectory = _ from ran, show fromMemory = _ from ran']
  refine ⟨rfl, rfl, agree, fun plain => agree.2 ?_⟩
  rintro before c after rfl
  have own (id : Text) (h : id ∈ c.id?) : id.toList.all isMarkerChar = true :=
    plain c (by simp) id h
  refine ⟨fun id asked other earlier shared => ?_,
    fun id taken => .inl (isString_of_markerChars (own id (Call.id?_of_taken taken)))⟩
  obtain ⟨b, member, took⟩ := List.mem_filterMap.1 earlier
  have first := plain b (by simp [member]) other (Call.id?_of_taken took)
  exact markerName_inj first (own id (Call.id?_of_asked asked)) shared ▸ earlier

def reopenedCalls : List Call :=
  [.claim "AR/1", .reopen, .has "AR/1", .claim "AR/1", .add "AR-1", .claim "AR/2"]

theorem directory_answers_reopened :
    (∀ c ∈ reopenedCalls, ∀ id ∈ c.id?, Fits id) ∧
    ∃ made, openDirectory .empty ["ids"] = .ok (.directory ["ids"], made) ∧
      (Call.run (.directory ["ids"]) made reopenedCalls).1 =
        [some true, none, some true, some false, none, some true].map .ok ∧
      (Call.run empty .empty reopenedCalls).1 =
        [some true, none, some true, some false, none, some true].map .ok := by
  have fits : ∀ c ∈ reopenedCalls, ∀ id ∈ c.id?, Fits id := by decide +kernel
  have vacant (id : Text) : Files.empty.lookup ((["ids"] : FilePath) ++ [markerName id]) =
    none := by
    simp [Files.lookup, Files.empty]
  have opened : openDirectory .empty ["ids"] =
      .ok (.directory ["ids"], ⟨[(["ids"], .directory)]⟩) := rfl
  obtain ⟨fromDirectory, fromMemory, -⟩ := directory_answers opened vacant fits
  exact ⟨fits, _, opened, fromDirectory.trans rfl, fromMemory.trans rfl⟩

/-- A directory refuses an id that nobody claimed before if another id has the same marker. -/
theorem shared_marker_refuses :
    ∃ made, openDirectory .empty ["ids"] = .ok (.directory ["ids"], made) ∧
      Fits "a/b" ∧ Fits "a_b" ∧
      (Call.run (.directory ["ids"]) made [.claim "a/b", .claim "a_b"]).1 =
        [.ok (some true), .ok (some false)] ∧
      (Call.run empty .empty [.claim "a/b", .claim "a_b"]).1 =
        [.ok (some true), .ok (some true)] :=
  ⟨_, rfl, by decide +kernel, by decide +kernel, rfl, rfl⟩

end ReleaseGate.Store
