import ReleaseGate.Contract.Check
import ReleaseGate.Proofs.Steps
import ReleaseGate.Value.Access

/-!
Comparisons of values that have places on the number line. Whatever is a number, of either type, has
one, so no comparison of numbers fails, and what lies before a number lies before all that are not
before it.
-/

namespace ReleaseGate

namespace Point

variable {p q r : Point}

theorem le_trans (first : p.le q = true) (next : q.le r = true) : p.le r = true := by
  cases p <;> cases q <;> cases r <;> simp_all [le, lt]
  omega

theorem lt_of_lt_of_le (first : p.lt q = true) (next : q.le r = true) : p.lt r = true := by
  cases p <;> cases q <;> cases r <;> simp_all [le, lt]
  omega

theorem lt_of_le_of_lt (first : p.le q = true) (next : q.lt r = true) : p.lt r = true := by
  cases p <;> cases q <;> cases r <;> simp_all [le, lt]
  omega

end Point

namespace Value

variable {u v w : Value}

theorem same_str_iff {s : Text} : v.same (.str s) = true ↔ v = .str s := by
  cases v with
  | str t => simp [same, sameScalar]
  | null | bool _ | int _ | float _ | list _ | object _ =>
      exact iff_of_false Bool.false_ne_true (fun h => nomatch h)

theorem place?_of_number (h : v.fits .number = true) : ∃ p, v.place? = some p := by
  cases v <;> first | exact ⟨_, rfl⟩ | cases h

theorem place?_of_notAfter_float {x : Double} {b : Bool} (h : v.notAfter? (.float x) = some b) :
    ∃ p, v.place? = some p := by
  cases v <;> first | exact ⟨_, rfl⟩ | cases h

theorem fits_number_of_integer (h : v.fits .integer = true) : v.fits .number = true := by
  cases v <;> first | rfl | cases h

section

variable {p q : Option Point} (hv : v.place? = some p) (hw : w.place? = some q)
include hv hw

theorem before?_of_places : v.before? w = some (related Point.lt p q) := by
  unfold before?
  split
  · cases hv
  · simp only [hv, hw]

theorem notAfter?_of_places : v.notAfter? w = some (related Point.le p q) := by
  unfold notAfter?
  split
  · cases hv
  · simp only [hv, hw]

/-- Numbers are equal exactly if they have one place. -/
theorem same_of_places : v.same w = related (fun a b => a == b) p q := by
  cases v with
  | bool _ | int _ | float _ =>
      cases w with
      | bool _ | int _ | float _ => simp only [same, sameScalar, hv, hw]
      | null | str _ | list _ | object _ => cases hw
  | null | str _ | list _ | object _ => cases hv

end

theorem related_eq {p q : Option Point} (h : related (fun a b => a == b) p q = true) : p = q := by
  cases p <;> cases q <;> simp_all [related]

theorem before_yields (hv : v.fits .number = true) (hw : w.fits .number = true) :
    Yields (v.before w) fun _ => True := by
  obtain ⟨p, hp⟩ := place?_of_number hv
  obtain ⟨q, hq⟩ := place?_of_number hw
  rw [before, before?_of_places hp hq]
  exact .ok trivial

theorem notAfter_yields (hv : v.fits .number = true) (hw : w.fits .number = true) :
    Yields (v.notAfter w) fun _ => True := by
  obtain ⟨p, hp⟩ := place?_of_number hv
  obtain ⟨q, hq⟩ := place?_of_number hw
  rw [notAfter, notAfter?_of_places hp hq]
  exact .ok trivial

section

variable {a b : Int} (hv : v.place? = some (some (.at a))) (hw : w.place? = some (some (.at b)))
include hv hw

theorem before_at : v.before w = .ok (decide (a < b)) := by
  rw [before, before?_of_places hv hw]
  rfl

theorem notAfter?_at : v.notAfter? w = some (decide (a ≤ b)) := by
  have le : (!decide (b < a)) = decide (a ≤ b) := by
    by_cases h : a ≤ b
    · simp [h, Int.not_lt.2 h]
    · simp [h, Int.not_le.1 h]
  rw [notAfter?_of_places hv hw, ← le]
  rfl

end

theorem exists_points (hv : v.fits .number = true) (hw : w.fits .number = true)
    (le : v.notAfter? w = some true) :
    ∃ p q, v.place? = some (some p) ∧ w.place? = some (some q) ∧ p.le q = true := by
  obtain ⟨p, hp⟩ := place?_of_number hv
  obtain ⟨q, hq⟩ := place?_of_number hw
  rw [notAfter?_of_places hp hq] at le
  cases p with
  | none => cases le
  | some p =>
      cases q with
      | none => cases le
      | some q => exact ⟨p, q, hp, hq, Option.some.inj le⟩

theorem ne_null_of_notAfter (le : v.notAfter? w = some true) : v ≠ .null ∧ w ≠ .null := by
  constructor
  · rintro rfl
    cases le
  · rintro rfl
    cases v <;> cases le

/-- What lies before the smaller of two numbers lies before the larger. -/
theorem before_alongside (hu : u.fits .number = true) (hv : v.fits .number = true)
    (hw : w.fits .number = true) (le : v.notAfter? w = some true) :
    Alongside (u.before v) (u.before w) fun x y => x ≤ y := by
  obtain ⟨o, ho⟩ := place?_of_number hu
  obtain ⟨p, q, hp, hq, le⟩ := exists_points hv hw le
  rw [before, before, before?_of_places ho hp, before?_of_places ho hq]
  refine .ok fun first => ?_
  cases o with
  | none => cases first
  | some o => exact Point.lt_of_lt_of_le first le

theorem notAfter?_trans {o : Option Point} (hu : u.place? = some o) (hv : v.fits .number = true)
    (hw : w.fits .number = true) (first : u.notAfter? v = some true)
    (next : v.notAfter? w = some true) : u.notAfter? w = some true := by
  obtain ⟨p, q, hp, hq, le⟩ := exists_points hv hw next
  rw [notAfter?_of_places hu hp] at first
  rw [notAfter?_of_places hu hq]
  cases o with
  | none => cases first
  | some o => exact congrArg some (Point.le_trans (Option.some.inj first) le)

end Value

end ReleaseGate
