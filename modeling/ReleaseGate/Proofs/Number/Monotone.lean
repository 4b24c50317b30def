import ReleaseGate.Proofs.Number.Bounds

/-!
Rounding keeps order. Of two ratios over one denominator the greater is not rounded to less, so
sums, products and quotients of numbers between zero and a bound grow with what they are made of.
-/

namespace ReleaseGate.Double

def rounded (num unit : Nat) : Nat :=
  if unit < 2 * (num % unit) ∨ unit = 2 * (num % unit) ∧ num / unit % 2 = 1 then num / unit + 1
  else num / unit

section

variable {num num' den r : Nat}

theorem nearest_eq (num den : Nat) :
    nearest num den = rounded num (den * place (num / den)) * place (num / den) := by
  unfold nearest rounded place
  dsimp only
  split <;> rfl

theorem div_le_rounded (num unit : Nat) : num / unit ≤ rounded num unit := by
  unfold rounded
  split <;> omega

theorem rounded_le_succ (num unit : Nat) : rounded num unit ≤ num / unit + 1 := by
  unfold rounded
  split <;> omega

theorem rounded_mono {unit : Nat} (le : num ≤ num') : rounded num unit ≤ rounded num' unit := by
  obtain less | same := Nat.lt_or_eq_of_le (Nat.div_le_div_right (c := unit) le)
  · exact Nat.le_trans (rounded_le_succ num unit) (Nat.le_trans less (div_le_rounded num' unit))
  · have rest : num % unit ≤ num' % unit := by
      have split := Nat.div_add_mod num unit
      have split' := Nat.div_add_mod num' unit
      rw [same] at split
      omega
    unfold rounded
    rw [same]
    split <;> split <;> omega

/-- A multiple of its last place that a ratio reaches is reached by its rounding too. -/
theorem le_nearest (positive : 0 < den) (multiple : place (num / den) ∣ r)
    (bound : r * den ≤ num) : r ≤ nearest num den := by
  rw [nearest_eq]
  have unit : 0 < den * place (num / den) := Nat.mul_pos positive (place_pos _)
  generalize place (num / den) = p at multiple unit ⊢
  obtain ⟨c, rfl⟩ := multiple
  have count : c ≤ num / (den * p) := by
    refine (Nat.le_div_iff_mul_le unit).2 (Nat.le_trans (Nat.le_of_eq ?_) bound)
    ac_rfl
  calc p * c = c * p := Nat.mul_comm p c
    _ ≤ rounded num (den * p) * p :=
      Nat.mul_le_mul_right p (Nat.le_trans count (div_le_rounded num (den * p)))

theorem representable_two_pow {e : Nat} (small : Nat.pow 2 e < Nat.pow 2 2098) :
    Representable (Nat.pow 2 e) := by
  have exponent : (Nat.pow 2 e).log2 = e := Nat.log2_two_pow
  refine ⟨Nat.mod_eq_zero_of_dvd ?_, small⟩
  rw [spareBits, exponent]
  exact Nat.pow_dvd_pow 2 (Nat.sub_le e 52)

/-- The nearest double of a larger ratio is no smaller. -/
theorem nearest_mono (positive : 0 < den) (le : num ≤ num') (fits : Representable r)
    (bound : num' ≤ r * den) : nearest num den ≤ nearest num' den := by
  have quotients : num / den ≤ num' / den := Nat.div_le_div_right le
  obtain less | same := Nat.lt_or_eq_of_le (spareBits_mono quotients)
  · -- The last places differ, so a power of two lies between the ratios.
    unfold spareBits at less
    have some : num' / den ≠ 0 := by
      intro none
      rw [none] at less
      simp at less
    have above : 2 ^ (num' / den).log2 ≤ num' / den := Nat.log2_self_le some
    have below : num / den < 2 ^ (num' / den).log2 := Nat.lt_of_lt_of_le Nat.lt_log2_self
      (Nat.pow_le_pow_right (by decide) (by omega))
    have most : num' / den ≤ r := Nat.div_le_of_le_mul (by rwa [Nat.mul_comm den])
    have power := representable_two_pow (Nat.lt_of_le_of_lt (Nat.le_trans above most) fits.2)
    have up : nearest num den ≤ 2 ^ (num' / den).log2 :=
      nearest_le positive power (Nat.le_of_lt ((Nat.div_lt_iff_lt_mul positive).1 below))
    have down : 2 ^ (num' / den).log2 ≤ nearest num' den :=
      le_nearest positive (Nat.pow_dvd_pow 2 (Nat.sub_le _ 52))
        ((Nat.le_div_iff_mul_le positive).1 above)
    exact Nat.le_trans up down
  · have places : place (num / den) = place (num' / den) := congrArg (Nat.pow 2) same
    rw [nearest_eq, nearest_eq, places]
    exact Nat.mul_le_mul_right _ (rounded_mono le)

end

-- The number of quanta in a unit counts from here on by name only.
attribute [local irreducible] quantaPerUnit

/-- Both finite and without a sign, the first at most the second, and that at most a number of
quanta. -/
def Ascending (most : Nat) (x y : Double) : Prop :=
  ∃ p q hp hq, x = .finite false p hp ∧ y = .finite false q hq ∧ p ≤ q ∧ q ≤ most

instance (most : Nat) : (x y : Double) → Decidable (Ascending most x y)
  | .finite false p hp, .finite false q hq =>
      decidable_of_iff (p ≤ q ∧ q ≤ most)
        ⟨fun h => ⟨p, q, hp, hq, rfl, rfl, h⟩, by
          rintro ⟨_, _, _, _, ⟨⟩, ⟨⟩, h⟩
          exact h⟩
  | .nan, _ | .infinite _, _ | .finite true _ _, _ => isFalse (by rintro ⟨_, _, _, _, ⟨⟩, _⟩)
  | .finite false _ _, .nan | .finite false _ _, .infinite _ | .finite false _ _,
    .finite true _ _ =>
      isFalse (by rintro ⟨_, _, _, _, -, ⟨⟩, _⟩)

section

variable {a b r : Nat} {x y z w : Double}

theorem UpTo.ascending (h : UpTo a x) : Ascending a x x := by
  obtain ⟨q, fits, rfl, bound⟩ := h
  exact ⟨q, q, fits, fits, rfl, rfl, Nat.le_refl q, bound⟩

theorem UpTo.zero_ascending (h : UpTo a x) : Ascending a (.zero false) x := by
  obtain ⟨q, fits, rfl, bound⟩ := h
  exact ⟨0, q, _, fits, rfl, rfl, Nat.zero_le q, bound⟩

theorem Ascending.left (h : Ascending a x y) : UpTo a x := by
  obtain ⟨p, q, hp, -, rfl, -, le, bound⟩ := h
  exact ⟨p, hp, rfl, Nat.le_trans le bound⟩

theorem Ascending.right (h : Ascending a x y) : UpTo a y := by
  obtain ⟨-, q, -, hq, -, rfl, -, bound⟩ := h
  exact ⟨q, hq, rfl, bound⟩

theorem Ascending.mono (h : Ascending a x y) (le : a ≤ b) : Ascending b x y := by
  obtain ⟨p, q, hp, hq, rfl, rfl, ascends, bound⟩ := h
  exact ⟨p, q, hp, hq, rfl, rfl, ascends, Nat.le_trans bound le⟩

theorem Ascending.trans (h : Ascending a x y) (next : Ascending b y z) : Ascending b x z := by
  obtain ⟨p, q, hp, hq, rfl, hy, less, -⟩ := h
  obtain ⟨q', s, hq', hs, hy', rfl, more, bound⟩ := next
  cases hy.symm.trans hy'
  exact ⟨p, s, hp, hs, rfl, rfl, Nat.le_trans less more, bound⟩

theorem ofRatio_ascending {num num' den : Nat} (positive : 0 < den) (le : num ≤ num')
    (fits : Representable r) (bound : num' ≤ r * den) :
    Ascending r (ofRatio false num den) (ofRatio false num' den) := by
  have near := nearest_representable positive fits (Nat.le_trans le bound)
  have near' := nearest_representable positive fits bound
  exact ⟨_, _, near, near', dif_pos near, dif_pos near', nearest_mono positive le fits bound,
    nearest_le positive fits bound⟩

theorem ofQuotient_ascending {n d : Nat} {i j : Int} (positive : 0 < d)
    (fits : Representable (n * quantaPerUnit)) (least : 0 ≤ i) (le : i ≤ j) (most : j ≤ n * d) :
    Ascending (n * quantaPerUnit) (ofQuotient i d) (ofQuotient j d) := by
  have sign : decide (i < 0) = false := decide_eq_false (by omega)
  have sign' : decide (j < 0) = false := decide_eq_false (by omega)
  rw [ofQuotient, ofQuotient, sign, sign']
  refine ofRatio_ascending positive (Nat.mul_le_mul_right _ (by omega)) fits ?_
  have whole : j.natAbs ≤ n * d := by omega
  calc j.natAbs * quantaPerUnit ≤ n * d * quantaPerUnit := Nat.mul_le_mul_right _ whole
    _ = n * quantaPerUnit * d := by ac_rfl

theorem ofInt_ascending {n : Nat} {i j : Int} (fits : Representable (n * quantaPerUnit))
    (least : 0 ≤ i) (le : i ≤ j) (most : j ≤ n) :
    Ascending (n * quantaPerUnit) (ofInt i) (ofInt j) :=
  ofQuotient_ascending Nat.one_pos fits least le (by omega)

theorem ofQuanta_ascending {p q : Nat} (le : p ≤ q) (fits : Representable r) (bound : q ≤ r) :
    Ascending r (ofQuanta false p) (ofQuanta false q) := by
  -- An exact zero is what its rounding would be.
  have plain (n : Nat) (small : n ≤ r) : ofQuanta false n = ofRatio false n 1 := by
    unfold ofQuanta
    split
    · rename_i none
      obtain rfl : n = 0 := Int.ofNat_eq_zero.1 none
      exact (ofRatio_of_representable false (q := 0) (by decide +kernel) Nat.one_pos).symm
    · rw [decide_eq_false (by omega)]
      rfl
  rw [plain p (Nat.le_trans le bound), plain q bound]
  exact ofRatio_ascending Nat.one_pos le fits (by omega)

/-- Sums of ascending doubles ascend. -/
theorem add_ascending (hx : Ascending a x y) (hz : Ascending b z w)
    (fits : Representable (a + b)) : Ascending (a + b) (x.add z) (y.add w) := by
  obtain ⟨p, q, hp, hq, rfl, rfl, le, bound⟩ := hx
  obtain ⟨s, t, hs, ht, rfl, rfl, le', bound'⟩ := hz
  exact ofQuanta_ascending (Nat.add_le_add le le') fits (Nat.add_le_add bound bound')

theorem mul_ascending (hx : Ascending a x y) (hz : Ascending b z w) (fits : Representable r)
    (bound : a * b ≤ r * quantaPerUnit) : Ascending r (x.mul z) (y.mul w) := by
  obtain ⟨p, q, hp, hq, rfl, rfl, le, most⟩ := hx
  obtain ⟨s, t, hs, ht, rfl, rfl, le', most'⟩ := hz
  exact ofRatio_ascending quantaPerUnit_pos (Nat.mul_le_mul le le') fits
    (Nat.le_trans (Nat.mul_le_mul most most') bound)

theorem floor_mono {i j : Int} (h : Ascending a x y) (hx : x.floor? = some i)
    (hy : y.floor? = some j) : i ≤ j := by
  obtain ⟨p, q, hp, hq, rfl, rfl, le, -⟩ := h
  cases hx
  cases hy
  show Int.fdiv (p : Int) quantaPerUnit ≤ Int.fdiv (q : Int) quantaPerUnit
  rw [← Int.ofNat_fdiv, ← Int.ofNat_fdiv]
  exact Int.ofNat_le.2 (Nat.div_le_div_right le)

end

end ReleaseGate.Double
