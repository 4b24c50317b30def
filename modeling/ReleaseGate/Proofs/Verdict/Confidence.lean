import ReleaseGate.Proofs.Verdict.Falling

/-!
The confidence in a riskier change. It grows with the overall score and shrinks with the risk level,
before and after it is rounded to hundredths.
-/

namespace ReleaseGate.Scorecard

open Double (half one ofQuotient)

-- The number of quanta in a unit counts here by name only.
attribute [local irreducible] quantaPerUnit

def weighed (base : Double) : RiskLevel → Double
  | .low => half.add (base.mul half)
  | .medium => base.mul (ofQuotient 3 4)
  | .high => base.mul half

theorem confidence_eq (overall : Value) (level : RiskLevel) :
    confidence overall (.str level.name) =
      perCent overall >>= fun base => toHundredths (weighed base level) >>= fun x =>
        clampUnit (.float x) := by
  cases level <;> rfl

section

variable {x y : Double}

theorem half_upTo_one : half.UpTo quantaPerUnit := Double.half_upTo.mono (Nat.div_le_self _ _)

theorem threeQuarters_upTo : (ofQuotient 3 4).UpTo quantaPerUnit := by
  have quarters : (ofQuotient 3 4).UpTo (1 * quantaPerUnit) :=
    Double.ofQuotient_upTo (by decide) (by decide +kernel) (by decide) (by decide)
  exact quarters.mono (Nat.le_of_eq (Nat.one_mul _))

theorem share_ascending {z w : Double} (h : Double.Ascending quantaPerUnit x y)
    (share : Double.Ascending quantaPerUnit z w) :
    Double.Ascending quantaPerUnit (x.mul z) (y.mul w) :=
  Double.mul_ascending h share (by decide +kernel) (Nat.le_refl _)

/-- At every level the confidence grows with the score. -/
theorem weighed_mono (level : RiskLevel) (h : Double.Ascending quantaPerUnit x y) :
    Double.Ascending (2 * quantaPerUnit) (weighed x level) (weighed y level) := by
  have halves := share_ascending h half_upTo_one.ascending
  have few : quantaPerUnit ≤ 2 * quantaPerUnit := by omega
  cases level with
  | low =>
      have sum := Double.add_ascending half_upTo_one.ascending halves (by decide +kernel)
      exact sum.mono (by omega)
  | medium => exact (share_ascending h threeQuarters_upTo.ascending).mono few
  | high => exact halves.mono few

end

section

variable {base : Double} (share : base.UpTo quantaPerUnit)
include share

theorem weighed_high_medium :
    Double.Ascending (2 * quantaPerUnit) (weighed base .high) (weighed base .medium) := by
  have order : Double.Ascending quantaPerUnit half (ofQuotient 3 4) := by decide +kernel
  exact (share_ascending share.ascending order).mono (by omega)

/-- Three quarters of a base up to one half stay below one half, and those of a greater base below
what one half adds to the half of one half. -/
theorem weighed_medium_low :
    Double.Ascending (2 * quantaPerUnit) (weighed base .medium) (weighed base .low) := by
  have quarters := threeQuarters_upTo.ascending
  have halves := half_upTo_one.ascending
  have add {z : Double} (h : Double.Ascending quantaPerUnit z (base.mul half)) :
      Double.Ascending (2 * quantaPerUnit) (half.add z) (weighed base .low) := by
    have sum := Double.add_ascending halves h (by decide +kernel)
    exact sum.mono (by omega)
  have halfEq : half = .finite false (quantaPerUnit / 2) (by decide +kernel) := by decide +kernel
  obtain ⟨q, fits, baseEq, most⟩ := id share
  obtain small | large := Nat.le_total q (quantaPerUnit / 2)
  · have low : Double.Ascending quantaPerUnit base half :=
      ⟨q, _, fits, _, baseEq, halfEq, small, Nat.div_le_self _ _⟩
    have constant : Double.Ascending quantaPerUnit (half.mul (ofQuotient 3 4))
        (half.add (.zero false)) := by decide +kernel
    have none := (share_ascending share.ascending halves).left.zero_ascending
    exact ((share_ascending low quarters).trans constant).trans (add none)
  · have high : Double.Ascending quantaPerUnit half base :=
      ⟨_, q, _, fits, halfEq, baseEq, large, most⟩
    have top : Double.Ascending quantaPerUnit base one :=
      ⟨q, _, fits, _, baseEq, one_eq, most, Nat.le_refl _⟩
    have constant : Double.Ascending quantaPerUnit (one.mul (ofQuotient 3 4))
        (half.add (half.mul half)) := by decide +kernel
    exact ((share_ascending top quarters).trans constant).trans
      (add (share_ascending high halves))

/-- A higher risk never weighs to a larger confidence. -/
theorem weighed_anti {k l : RiskLevel} (le : k.rank ≤ l.rank) :
    Double.Ascending (2 * quantaPerUnit) (weighed base l) (weighed base k) := by
  have refl (level : RiskLevel) := weighed_mono level share.ascending
  cases k with
  | low =>
      cases l with
      | low => exact refl .low
      | medium => exact weighed_medium_low share
      | high => exact (weighed_high_medium share).trans (weighed_medium_low share)
  | medium =>
      cases l with
      | low => exact absurd le (by decide)
      | medium => exact refl .medium
      | high => exact weighed_high_medium share
  | high =>
      cases l with
      | low | medium => exact absurd le (by decide)
      | high => exact refl .high

end

/-- Rounding to hundredths keeps the order. -/
theorem toHundredths_alongside {x y : Double} (h : Double.Ascending (2 * quantaPerUnit) y x) :
    Alongside (toHundredths x) (toHundredths y) fun u v =>
      Double.Ascending (3 * quantaPerUnit) v u := by
  obtain ⟨p, q, hp, hq, rfl, rfl, le, most⟩ := h
  rw [toHundredths_eq most, toHundredths_eq (Nat.le_trans le most)]
  have more : hundredths p ≤ hundredths q :=
    Nat.div_le_div_right (Nat.add_le_add_right (Nat.mul_le_mul_left 200 le) quantaPerUnit)
  exact .ok (Double.ofRatio_ascending (by decide) (Nat.mul_le_mul_right _ more) (by decide +kernel)
    (hundredths_quanta most))

theorem clampUnit_alongside {x y : Double} (h : Double.Ascending (3 * quantaPerUnit) y x) :
    Alongside (clampUnit (.float x)) (clampUnit (.float y)) fun u v =>
      Double.Ascending quantaPerUnit v u := by
  obtain ⟨p, q, hp, hq, rfl, rfl, le, most⟩ := h
  rw [clampUnit_eq, clampUnit_eq]
  refine .ok ?_
  by_cases inside : q < quantaPerUnit
  · rw [if_pos inside, if_pos (Nat.lt_of_le_of_lt le inside)]
    exact ⟨p, q, hp, hq, rfl, rfl, le, Nat.le_of_lt inside⟩
  · rw [if_neg inside]
    by_cases inside' : p < quantaPerUnit
    · rw [if_pos inside']
      exact ⟨p, _, hp, _, rfl, one_eq, Nat.le_of_lt inside', Nat.le_refl _⟩
    · rw [if_neg inside']
      exact ⟨_, _, _, _, one_eq, one_eq, Nat.le_refl _, Nat.le_refl _⟩

theorem perCent_alongside {i j : Int} (h : Falls i j) :
    Alongside (perCent (.int i)) (perCent (.int j)) fun x y =>
      Double.Ascending quantaPerUnit y x := by
  have ascends := Double.ofQuotient_ascending (n := 1) (d := 100) (by decide) (by decide +kernel)
    h.least h.le h.most
  rw [perCent_int ascends.right, perCent_int ascends.left]
  exact .ok (ascends.mono (Nat.le_of_eq (Nat.one_mul _)))

/-- A lower score at a higher risk gives no larger confidence. -/
theorem confidence_alongside {i j : Int} {k l : RiskLevel} (falls : Falls i j)
    (le : k.rank ≤ l.rank) :
    Alongside (confidence (.int i) (.str k.name)) (confidence (.int j) (.str l.name)) fun x y =>
      Double.Ascending quantaPerUnit y x := by
  rw [confidence_eq, confidence_eq]
  refine (perCent_alongside falls).bind fun base base' smaller => ?_
  have raw := (weighed_mono l smaller).trans (weighed_anti smaller.right le)
  exact (toHundredths_alongside raw).bind fun x y ascends => clampUnit_alongside ascends

theorem notAfter_of_ascending {most : Nat} {x y : Double} (h : Double.Ascending most x y) :
    (Value.float x).notAfter? (.float y) = some true := by
  obtain ⟨p, q, hp, hq, rfl, rfl, le, -⟩ := h
  rw [Value.notAfter?_at (a := p) (b := q) rfl rfl, decide_eq_true (Int.ofNat_le.2 le)]

end ReleaseGate.Scorecard
