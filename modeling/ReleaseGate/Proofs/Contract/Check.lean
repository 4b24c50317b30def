import ReleaseGate.Contract.Check
import ReleaseGate.Proofs.Sorting
import ReleaseGate.Proofs.Value.WellFormed

/-!
What it means that a check finds nothing. Each check is clean exactly when the document is as the
check asks; the checks of members are clean when each of them is.
-/

namespace ReleaseGate.Check

variable {path : Path} {doc : Value}

@[simp] theorem anything_clean : (anything : Check Value) path doc = [] := rfl

@[simp] theorem and_clean {c d : Check Value} :
    c.and d path doc = [] ↔ c path doc = [] ∧ d path doc = [] := by
  simp [Check.and]

@[simp] theorem both_nil_clean : both ([] : List (Check Value)) path doc = [] := rfl

@[simp] theorem both_cons_clean {c : Check Value} {cs : List (Check Value)} :
    both (c :: cs) path doc = [] ↔ c path doc = [] ∧ both cs path doc = [] := by
  simp [both]

theorem document_member (v : Value) (key : Text) : Document.member? v key = v.member? key := rfl

theorem document_fits (kind : Kind) (v : Value) : Document.fits kind v = v.fits kind := rfl

/-- A required member is in order exactly if it is there, of its kind, and passes its check. -/
theorem required_clean {key : Text} {kind : Kind} {check : Check Value} :
    required key kind check path doc = [] ↔
      ∃ v, doc.member? key = some v ∧ v.fits kind = true ∧ check (path.member key) v = [] := by
  simp only [required, member, document_member, document_fits]
  cases doc.member? key with
  | none => simp
  | some v => by_cases fit : v.fits kind = true <;> simp [fit]

theorem required_clean_of {key : Text} {kind : Kind} {check : Check Value} {v : Value}
    (h : doc.member? key = some v) :
    required key kind check path doc = [] ↔ v.fits kind = true ∧ check (path.member key) v =
      [] := by
  simp [required_clean, h]

/-- An optional member is in order if it is absent, or else of its kind and checked. -/
theorem optional_clean {key : Text} {kind : Kind} {check : Check Value} :
    optional key kind check path doc = [] ↔
      ∀ v, doc.member? key = some v → v.fits kind = true ∧ check (path.member key) v = [] := by
  simp only [optional, member, document_member, document_fits]
  cases doc.member? key with
  | none => simp
  | some v => by_cases fit : v.fits kind = true <;> simp [fit]

theorem requiredAny_clean {key : Text} {check : Check Value} :
    requiredAny key check path doc = [] ↔
      ∃ v, doc.member? key = some v ∧ check (path.member key) v = [] := by
  simp only [requiredAny, document_member]
  cases doc.member? key <;> simp

theorem notBlank_clean {s : Text} :
    (notBlank : Check Value) path (.str s) = [] ↔ Text.isBlankText s = false := by
  show (if Text.isBlankText s = true then _ else _) = [] ↔ _
  by_cases blank : Text.isBlankText s = true <;> simp [blank]

theorem oneOf_clean {allowed : List Text} {s : Text} :
    (oneOf allowed : Check Value) path (.str s) = [] ↔ s ∈ allowed := by
  show (if s ∈ allowed then _ else _) = [] ↔ _
  by_cases h : s ∈ allowed <;> simp [h]

theorem schema_clean {expected s : Text} :
    (schema expected : Check Value) path (.str s) = [] ↔ s = expected := by
  show (if s = expected then _ else _) = [] ↔ _
  by_cases h : s = expected <;> simp [h]

theorem sortBy_eq_nil {α : Type} {before : α → α → Bool} {as : List α} :
    sortBy before as = [] ↔ as = [] := by
  have perm := sortBy_perm before as
  constructor
  · exact fun h => List.nil_perm.1 (h ▸ perm)
  · rintro rfl
    rfl

/-- No unknown member is reported exactly if every name is among the allowed ones. -/
theorem onlyMembers_clean {allowed : List Text} {ms : List (Text × Value)} :
    (onlyMembers allowed : Check Value) path (.object ms) = [] ↔
      ∀ k ∈ Value.names ms, k ∈ allowed := by
  show unknownIssues path (unknownKeys allowed (ms.map fun m => Key.text m.1)) = [] ↔ _
  have known (k : Text) : Key.text k ∈ allowed.map Key.text ↔ k ∈ allowed := by
    simp
  rw [unknownIssues, List.map_eq_nil_iff, sortBy_eq_nil, unknownKeys, List.filter_eq_nil_iff]
  simp only [List.forall_mem_map, Value.names, known, decide_not, Bool.not_eq_true',
    decide_eq_false_iff_not, Decidable.not_not]

theorem each_items {check : Check Value} {vs : List Value}
    (clean : each check path (.list vs) = []) : ∀ v ∈ vs, ∃ place, check place v = [] := by
  intro v hv
  obtain ⟨i, hi, rfl⟩ := List.mem_iff_getElem.1 hv
  have there : (vs[i], i) ∈ vs.zipIdx := by simp [List.mem_zipIdx_iff_getElem?, hi]
  exact ⟨_, List.flatMap_eq_nil_iff.1 clean _ there⟩

theorem each_clean_of {check : Check Value} {vs : List Value}
    (clean : ∀ v ∈ vs, ∀ place, check place v = []) : each check path (.list vs) = [] :=
  List.flatMap_eq_nil_iff.2 fun _ hp => clean _ (List.fst_mem_of_mem_zipIdx hp) _

/-- A check that goes by what its items stand for goes by it wherever they stand. -/
theorem each_clean {α : Type} {check : Check Value} {f : α → Value} {P : α → Prop} {as : List α}
    (h : ∀ path a, check path (f a) = [] ↔ P a) :
    each check path (.list (as.map f)) = [] ↔ ∀ a ∈ as, P a := by
  constructor
  · intro clean a ha
    obtain ⟨place, checked⟩ := each_items clean (f a) (List.mem_map_of_mem ha)
    exact (h place a).1 checked
  · intro every
    refine each_clean_of fun v hv place => ?_
    obtain ⟨a, ha, rfl⟩ := List.mem_map.1 hv
    exact (h place a).2 (every a ha)

theorem object_clean {check : Check Value} :
    object check path doc = [] ↔ ∃ ms, doc = .object ms ∧ check path (.object ms) = [] := by
  simp only [object, document_fits]
  cases doc <;> simp [Value.fits]

theorem between_clean {low high : Nat} {v : Value} :
    between low high path v = [] ↔
      (Value.int low).notAfter? v = some true ∧ v.notAfter? (Value.int high) = some true := by
  unfold between
  split <;> simp_all

theorem fits_text {v : Value} : v.fits .text = true ↔ ∃ s, v = .str s := by
  cases v <;> simp [Value.fits]

theorem fits_flag {v : Value} : v.fits .flag = true ↔ ∃ b, v = .bool b := by
  cases v <;> simp [Value.fits]

theorem fits_list {v : Value} : v.fits .list = true ↔ ∃ vs, v = .list vs := by
  cases v <;> simp [Value.fits]

theorem fits_object {v : Value} : v.fits .object = true ↔ ∃ ms, v = .object ms := by
  cases v <;> simp [Value.fits]

section

variable {key : Text} {check : Check Value}

theorem required_text : required key .text check path doc = [] ↔
    ∃ s, doc.member? key = some (.str s) ∧ check (path.member key) (.str s) = [] := by
  rw [required_clean]
  constructor
  · rintro ⟨v, found, fit, clean⟩
    obtain ⟨s, rfl⟩ := fits_text.1 fit
    exact ⟨s, found, clean⟩
  · rintro ⟨s, found, clean⟩
    exact ⟨_, found, rfl, clean⟩

theorem required_list : required key .list check path doc = [] ↔
    ∃ vs, doc.member? key = some (.list vs) ∧ check (path.member key) (.list vs) = [] := by
  rw [required_clean]
  constructor
  · rintro ⟨v, found, fit, clean⟩
    obtain ⟨vs, rfl⟩ := fits_list.1 fit
    exact ⟨vs, found, clean⟩
  · rintro ⟨vs, found, clean⟩
    exact ⟨_, found, rfl, clean⟩

end

end ReleaseGate.Check
