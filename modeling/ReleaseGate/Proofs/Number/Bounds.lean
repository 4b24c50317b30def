import ReleaseGate.Proofs.Number.Rounding

/-!
Bounds on rounding. A ratio is rounded to a magnitude that a double can have and never past one that
bounds it; so sums and products of numbers between zero and a bound stay finite and bounded.
-/

namespace ReleaseGate.Double

def place (n : Nat) : Nat := Nat.pow 2 (spareBits n)

theorem place_pos (n : Nat) : 0 < place n := Nat.two_pow_pos _

theorem spareBits_mono {m n : Nat} (h : m ≤ n) : spareBits m ≤ spareBits n := by
  obtain rfl | hm := Nat.eq_zero_or_pos m
  · exact Nat.zero_le _
  · have hn : n ≠ 0 := by omega
    have le : m.log2 ≤ n.log2 :=
      (Nat.le_log2 hn).2 (Nat.le_trans (Nat.log2_self_le (by omega)) h)
    exact Nat.sub_le_sub_right le 52

theorem place_dvd_place {m n : Nat} (h : m ≤ n) : place m ∣ place n :=
  Nat.pow_dvd_pow 2 (spareBits_mono h)

theorem lt_place (n : Nat) : n < Nat.pow 2 53 * place n := by
  have exponent : n.log2 + 1 ≤ 53 + spareBits n := by
    unfold spareBits
    omega
  calc n < 2 ^ (n.log2 + 1) := Nat.lt_log2_self
    _ ≤ 2 ^ (53 + spareBits n) := Nat.pow_le_pow_right (by decide) exponent
    _ = Nat.pow 2 53 * place n := Nat.pow_add 2 53 (spareBits n)

/-- A multiple of a place that is at most 53 places above it keeps no lower place. -/
theorem place_dvd_multiple {k n : Nat} (h : k ≤ Nat.pow 2 53) :
    place (k * place n) ∣ k * place n := by
  obtain below | top := Nat.lt_or_eq_of_le h
  · have few : spareBits (k * place n) ≤ spareBits n := by
      obtain none | some := Nat.eq_zero_or_pos (k * place n)
      · rw [none]
        exact Nat.zero_le _
      · have less : k * place n < 2 ^ (53 + spareBits n) := by
          rw [Nat.pow_add]
          exact Nat.mul_lt_mul_of_pos_right below (place_pos n)
        have := (Nat.log2_lt (Nat.ne_of_gt some)).2 less
        unfold spareBits at this ⊢
        omega
    exact Nat.dvd_mul_left_of_dvd (Nat.pow_dvd_pow 2 few) k
  · have power : k * place n = 2 ^ (53 + spareBits n) := by
      rw [top, Nat.pow_add]
      rfl
    have one : spareBits (k * place n) ≤ 53 + spareBits n := by
      rw [power, spareBits, Nat.log2_two_pow]
      omega
    calc place (k * place n) ∣ 2 ^ (53 + spareBits n) := Nat.pow_dvd_pow 2 one
      _ = k * place n := power.symm

section

variable {num den : Nat}

/-- Where nothing is left of a ratio it is not rounded up. -/
theorem nearest_cases (num : Nat) (positive : 0 < den) :
    nearest num den = num / (den * place (num / den)) * place (num / den) ∨
      nearest num den = (num / (den * place (num / den)) + 1) * place (num / den) ∧
      num % (den * place (num / den)) ≠ 0 := by
  have unit : 0 < den * place (num / den) := Nat.mul_pos positive (place_pos _)
  unfold place at unit ⊢
  simp only [nearest]
  split
  · exact Or.inr ⟨rfl, by omega⟩
  · exact Or.inl rfl

/-- A ratio is not rounded past a magnitude of a double that bounds it. -/
theorem nearest_le {r : Nat} (positive : 0 < den) (fits : Representable r) (bound : num ≤ r * den) :
    nearest num den ≤ r := by
  have quotient : num / den ≤ r := Nat.div_le_of_le_mul (by rwa [Nat.mul_comm den])
  have cases := nearest_cases num positive
  -- The bound is a multiple of the place too, so it is the one below or not less than the next.
  obtain ⟨c, multiple⟩ : place (num / den) ∣ r :=
    Nat.dvd_trans (place_dvd_place quotient) (Nat.dvd_of_mod_eq_zero fits.1)
  have count (p : Nat) : num / (den * p) = num / den / p := (Nat.div_div_eq_div_mul _ _ _).symm
  generalize place (num / den) = p at cases multiple
  obtain down | ⟨up, rest⟩ := cases
  · rw [down, count]
    exact Nat.le_trans (Nat.div_mul_le_self _ _) quotient
  · rw [up, count, multiple, Nat.mul_comm p]
    obtain more | less := Nat.lt_or_ge (num / den / p) c
    · exact Nat.mul_le_mul_right p more
    · have whole := Nat.div_add_mod num (den * p)
      have most : num ≤ den * p * (num / (den * p)) :=
        calc num ≤ p * c * den := multiple ▸ bound
          _ = den * p * c := by ac_rfl
          _ ≤ den * p * (num / (den * p)) := by
            rw [count]
            exact Nat.mul_le_mul_left _ less
      have none : num % (den * p) = 0 := by omega
      exact absurd none rest

theorem nearest_representable {r : Nat} (positive : 0 < den) (fits : Representable r)
    (bound : num ≤ r * den) : Representable (nearest num den) := by
  refine ⟨Nat.mod_eq_zero_of_dvd ?_, Nat.lt_of_le_of_lt (nearest_le positive fits bound) fits.2⟩
  have count : num / (den * place (num / den)) < Nat.pow 2 53 := by
    rw [← Nat.div_div_eq_div_mul]
    exact (Nat.div_lt_iff_lt_mul (place_pos _)).2 (lt_place _)
  obtain down | ⟨up, -⟩ := nearest_cases num positive
  · rw [down]
    exact place_dvd_multiple (Nat.le_of_lt count)
  · rw [up]
    exact place_dvd_multiple count

end

theorem quantaPerUnit_pos : 0 < quantaPerUnit := by decide +kernel

-- The number of quanta in a unit counts from here on by name only.
attribute [local irreducible] quantaPerUnit

/-- Finite, without a sign, and at most a number of quanta. -/
def UpTo (most : Nat) (x : Double) : Prop :=
  ∃ quanta fits, x = .finite false quanta fits ∧ quanta ≤ most

theorem UpTo.mono {a b : Nat} {x : Double} (h : UpTo a x) (le : a ≤ b) : UpTo b x := by
  obtain ⟨q, fits, rfl, bound⟩ := h
  exact ⟨q, fits, rfl, Nat.le_trans bound le⟩

theorem ofRatio_upTo {r num den : Nat} (positive : 0 < den) (fits : Representable r)
    (bound : num ≤ r * den) : UpTo r (ofRatio false num den) := by
  have near := nearest_representable positive fits bound
  exact ⟨nearest num den, near, dif_pos near, nearest_le positive fits bound⟩

theorem half_upTo : UpTo (quantaPerUnit / 2) half :=
  have even : quantaPerUnit ≤ quantaPerUnit / 2 * 2 := by decide +kernel
  ofRatio_upTo Nat.two_pos (by decide +kernel) even

theorem ofQuotient_upTo {n d : Nat} {i : Int} (positive : 0 < d)
    (fits : Representable (n * quantaPerUnit)) (least : 0 ≤ i) (most : i ≤ n * d) :
    UpTo (n * quantaPerUnit) (ofQuotient i d) := by
  have sign : decide (i < 0) = false := decide_eq_false (by omega)
  rw [ofQuotient, sign]
  refine ofRatio_upTo positive fits ?_
  have whole : i.natAbs ≤ n * d := by omega
  calc i.natAbs * quantaPerUnit ≤ n * d * quantaPerUnit := Nat.mul_le_mul_right _ whole
    _ = n * quantaPerUnit * d := by ac_rfl

theorem ofInt_upTo {n : Nat} {i : Int} (fits : Representable (n * quantaPerUnit)) (least : 0 ≤ i)
    (most : i ≤ n) : UpTo (n * quantaPerUnit) (ofInt i) :=
  ofQuotient_upTo Nat.one_pos fits least (by omega)

/-- A sum of bounded doubles is bounded by the sum, where that is representable. -/
theorem add_upTo {a b : Nat} {x y : Double} (hx : UpTo a x) (hy : UpTo b y)
    (fits : Representable (a + b)) : UpTo (a + b) (x.add y) := by
  obtain ⟨p, hp, rfl, boundP⟩ := hx
  obtain ⟨q, hq, rfl, boundQ⟩ := hy
  have sum : signed false p + signed false q = ((p + q : Nat) : Int) := rfl
  rw [add, sum, ofQuanta]
  split
  · exact ⟨0, _, rfl, Nat.zero_le _⟩
  · have sign : decide (((p + q : Nat) : Int) < 0) = false := decide_eq_false (by omega)
    rw [sign]
    refine ofRatio_upTo Nat.one_pos fits ?_
    rw [Nat.mul_one]
    exact Nat.add_le_add boundP boundQ

theorem mul_upTo {a b r : Nat} {x y : Double} (hx : UpTo a x) (hy : UpTo b y)
    (fits : Representable r) (bound : a * b ≤ r * quantaPerUnit) : UpTo r (x.mul y) := by
  obtain ⟨p, hp, rfl, boundP⟩ := hx
  obtain ⟨q, hq, rfl, boundQ⟩ := hy
  exact ofRatio_upTo quantaPerUnit_pos fits (Nat.le_trans (Nat.mul_le_mul boundP boundQ) bound)

theorem floor_upTo {n most : Nat} {x : Double} (h : UpTo most x)
    (below : most < (n + 1) * quantaPerUnit) : ∃ i : Nat, x.floor? = some (i : Int) ∧ i ≤ n := by
  obtain ⟨q, hq, rfl, bound⟩ := h
  refine ⟨q / quantaPerUnit, congrArg some (Int.ofNat_fdiv q quantaPerUnit).symm,
    Nat.le_of_lt_succ ?_⟩
  exact (Nat.div_lt_iff_lt_mul quantaPerUnit_pos).2 (Nat.lt_of_le_of_lt bound below)

end ReleaseGate.Double
