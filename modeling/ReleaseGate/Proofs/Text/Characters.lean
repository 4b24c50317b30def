import ReleaseGate.Text.Blank
import ReleaseGate.Text.DecimalDigit

/-!
Blanks and decimal digits. No character is both, and outside their ASCII ranges neither is an ASCII
character.
-/

namespace ReleaseGate.Text

theorem isBlank_toNat {c : CodePoint} (h : isBlank c = true) : c.toNat ≤ 32 ∨ 128 ≤ c.toNat := by
  obtain ⟨r, listed, within⟩ := List.any_eq_true.1 h
  have ranges : ∀ r ∈ blankRanges, r.2 ≤ 32 ∨ 128 ≤ r.1 := by decide
  have apart := ranges r listed
  simp only [Bool.and_eq_true, decide_eq_true_eq] at within
  omega

theorem exists_zero {c : CodePoint} (h : isDecimalDigit c = true) :
    ∃ z ∈ digitZeros, z ≤ c.toNat ∧ c.toNat ≤ z + 9 := by
  rw [isDecimalDigit, digitValue?, Option.isSome_map] at h
  obtain ⟨z, found⟩ := Option.isSome_iff_exists.1 h
  have within := List.find?_some found
  simp only [Bool.and_eq_true, decide_eq_true_eq] at within
  exact ⟨z, List.mem_of_find?_eq_some found, within⟩

theorem isDecimalDigit_toNat {c : CodePoint} (h : isDecimalDigit c = true) :
    48 ≤ c.toNat ∧ c.toNat ≤ 57 ∨ 128 ≤ c.toNat := by
  have zeros : ∀ z ∈ digitZeros, z = 48 ∨ 128 ≤ z := by decide
  obtain ⟨z, listed, within⟩ := exists_zero h
  have := zeros z listed
  omega

/-- No script has a digit among the blanks. -/
theorem not_isBlank_of_isDecimalDigit {c : CodePoint} (h : isDecimalDigit c = true) :
    isBlank c = false := by
  have apart : ∀ z ∈ digitZeros, ∀ r ∈ blankRanges, z + 9 < r.1 ∨ r.2 < z := by decide
  obtain ⟨z, zero, within⟩ := exists_zero h
  refine List.any_eq_false.2 fun r listed blank => ?_
  have := apart z zero r listed
  simp only [Bool.and_eq_true, decide_eq_true_eq] at blank
  omega

theorem isDecimalDigit_ne {c d : CodePoint} (h : isDecimalDigit c = true)
    (other : isDecimalDigit d = false) : c ≠ d := by
  rintro rfl
  rw [h] at other
  cases other

end ReleaseGate.Text
