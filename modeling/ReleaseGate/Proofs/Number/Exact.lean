import ReleaseGate.Proofs.Number.Monotone

/-!
Arithmetic in quarters that no rounding disturbs. A ratio closer to a multiple of its last place
than half of that place is rounded to this multiple. Few quarters are such a multiple: their sums
are exact, and so is a product with a factor whose own rounding cost it at most one part in `2⁵⁴`.
-/

namespace ReleaseGate.Double

section

variable {num den unit c q : Nat}

theorem rounded_near (below : 2 * (c * unit) < 2 * num + unit)
    (above : 2 * num < 2 * (c * unit) + unit) : rounded num unit = c := by
  have positive : 0 < unit := by omega
  have split : unit * (num / unit) + num % unit = num := Nat.div_add_mod num unit
  have rest : num % unit < unit := Nat.mod_lt num positive
  by_cases reached : c * unit ≤ num
  · have count : num / unit = c := by
      apply Nat.div_eq_of_lt_le reached
      rw [Nat.add_one_mul]
      omega
    rw [count, Nat.mul_comm] at split
    rw [rounded, count]
    exact if_neg (by omega)
  · obtain ⟨b, rfl⟩ : ∃ b, c = b + 1 := by
      cases c with
      | zero => exact absurd (by omega) reached
      | succ b => exact ⟨b, rfl⟩
    rw [Nat.add_one_mul b] at below above reached
    have count : num / unit = b := by
      apply Nat.div_eq_of_lt_le (by omega)
      rw [Nat.add_one_mul b]
      omega
    rw [count, Nat.mul_comm] at split
    rw [rounded, count]
    exact if_pos (Or.inl (by omega))

/-- A ratio close enough to a multiple of its place is rounded to it. -/
theorem nearest_near (multiple : place (num / den) ∣ q)
    (below : 2 * (q * den) < 2 * num + den * place (num / den))
    (above : 2 * num < 2 * (q * den) + den * place (num / den)) : nearest num den = q := by
  obtain ⟨c, rfl⟩ := multiple
  rw [nearest_eq]
  generalize place (num / den) = p at below above ⊢
  have units : p * c * den = c * (den * p) := by ac_rfl
  rw [units] at below above
  rw [rounded_near below above, Nat.mul_comm]

theorem place_dvd_two_pow {m e : Nat} (small : m < Nat.pow 2 (e + 53)) :
    place m ∣ Nat.pow 2 e := by
  apply Nat.pow_dvd_pow 2
  obtain rfl | some := Nat.eq_zero_or_pos m
  · exact Nat.zero_le e
  · have := (Nat.log2_lt (Nat.ne_of_gt some)).2 small
    unfold spareBits
    omega

end

-- The number of quanta in a unit counts from here on by name only.
attribute [local irreducible] quantaPerUnit

def quarter : Nat := Nat.pow 2 1072

theorem quarter_pos : 0 < quarter := by decide +kernel

theorem unit_eq : quantaPerUnit = 4 * quarter := by decide +kernel

theorem half_eq : half = .finite false (2 * quarter) (by decide +kernel) := by decide +kernel

theorem quarters_lt {j : Nat} (few : j < Nat.pow 2 53) : j * quarter < Nat.pow 2 (1072 + 53) := by
  calc j * quarter < Nat.pow 2 53 * quarter := Nat.mul_lt_mul_of_pos_right few quarter_pos
    _ = Nat.pow 2 (1072 + 53) := by decide +kernel

/-- The last place of a number that is not too large is at most a quarter. -/
theorem place_dvd_quarter {m : Nat} (small : m < Nat.pow 2 (1072 + 53)) : place m ∣ quarter := by
  obtain ⟨e, power, same⟩ : ∃ e, quarter = Nat.pow 2 e ∧ e = 1072 := ⟨1072, by decide +kernel, rfl⟩
  rw [power]
  exact place_dvd_two_pow (same ▸ small)

theorem quarters_fit {j : Nat} (few : j < Nat.pow 2 53) : Representable (j * quarter) := by
  have small := quarters_lt few
  have most : Nat.pow 2 (1072 + 53) ≤ Nat.pow 2 2098 := by decide +kernel
  refine ⟨Nat.mod_eq_zero_of_dvd ?_, Nat.lt_of_lt_of_le small most⟩
  exact Nat.dvd_mul_left_of_dvd (place_dvd_quarter small) j

/-- Finite, without a sign, and exactly this many quarters. -/
def IsQuarters (j : Nat) (x : Double) : Prop := ∃ fits, x = .finite false (j * quarter) fits

-- The same holds of the quanta in a quarter.
attribute [local irreducible] quarter

theorem half_quarters : IsQuarters 2 half := ⟨_, half_eq⟩

section

variable {i j : Nat} {x y : Double}

theorem IsQuarters.upTo (h : IsQuarters j x) : UpTo (j * quarter) x := by
  obtain ⟨fits, rfl⟩ := h
  exact ⟨j * quarter, fits, rfl, Nat.le_refl _⟩

theorem ofInt_quarters {n : Int} (least : 0 ≤ n) (few : 4 * n.toNat < Nat.pow 2 53) :
    IsQuarters (4 * n.toNat) (ofInt n) := by
  refine ⟨quarters_fit few, ?_⟩
  have sign : decide (n < 0) = false := decide_eq_false (by omega)
  have quanta : n.natAbs * quantaPerUnit = 4 * n.toNat * quarter * 1 := by
    have same : n.natAbs = n.toNat := by omega
    rw [same, unit_eq, Nat.mul_one]
    ac_rfl
  rw [ofInt, sign, quanta]
  exact ofRatio_of_representable false (quarters_fit few) Nat.one_pos

theorem add_quarters (hx : IsQuarters i x) (hy : IsQuarters j y) (few : i + j < Nat.pow 2 53) :
    IsQuarters (i + j) (x.add y) := by
  obtain ⟨_, rfl⟩ := hx
  obtain ⟨_, rfl⟩ := hy
  have sum : signed false (i * quarter) + signed false (j * quarter) =
      (((i + j) * quarter : Nat) : Int) := by
    rw [Nat.add_mul]
    rfl
  rw [add, sum, ofQuanta]
  split
  · rename_i none
    have zero : (i + j) * quarter = 0 := Int.ofNat_eq_zero.1 none
    exact ⟨quarters_fit few, by simp only [zero]; rfl⟩
  · have sign : decide ((((i + j) * quarter : Nat) : Int) < 0) = false :=
      decide_eq_false (by omega)
    rw [sign]
    refine ⟨quarters_fit few, ?_⟩
    have exact_ := ofRatio_of_representable false (quarters_fit few) Nat.one_pos
    rwa [Nat.mul_one] at exact_

theorem floor_quarters (h : IsQuarters j x) : x.floor? = some ((j / 4 : Nat) : Int) := by
  obtain ⟨fits, rfl⟩ := h
  show some (Int.fdiv ((j * quarter : Nat) : Int) quantaPerUnit) = _
  rw [← Int.ofNat_fdiv, unit_eq, Nat.mul_div_mul_right j 4 quarter_pos]

/-- A factor of this many quanta stands for `c / d`, off by at most one part in `2⁵⁴`. -/
structure Close (c d factor : Nat) : Prop where
  least : 2 * Nat.pow 2 53 * (c * quantaPerUnit) ≤ 2 * Nat.pow 2 53 * (d * factor) + d * factor
  most : 2 * Nat.pow 2 53 * (d * factor) ≤ 2 * Nat.pow 2 53 * (c * quantaPerUnit) + d * factor

/-- What is off by less than one part in twice as many as there are places is off by less than half
of the last place. -/
theorem half_place {places p q m : Nat} (small : m < places * p)
    (least : 2 * places * q ≤ 2 * places * m + m) (most : 2 * places * m ≤ 2 * places * q + m) :
    2 * q < 2 * m + p ∧ 2 * m < 2 * q + p := by
  constructor
  · apply Nat.lt_of_mul_lt_mul_left (a := places)
    calc places * (2 * q) = 2 * places * q := by ac_rfl
      _ < 2 * places * m + places * p := by omega
      _ = places * (2 * m + p) := by rw [Nat.mul_add]; ac_rfl
  · apply Nat.lt_of_mul_lt_mul_left (a := places)
    calc places * (2 * m) = 2 * places * m := by ac_rfl
      _ < 2 * places * q + places * p := by omega
      _ = places * (2 * q + p) := by rw [Nat.mul_add]; ac_rfl

/-- A multiple of what is close to `e / d` is as close to the multiple of this. -/
theorem close_mul {parts n d e factor q : Nat} (positive : 0 < d) (whole : d * q = n * e)
    (least : parts * e ≤ parts * (d * factor) + d * factor)
    (most : parts * (d * factor) ≤ parts * e + d * factor) :
    parts * q ≤ parts * (n * factor) + n * factor ∧
      parts * (n * factor) ≤ parts * q + n * factor := by
  constructor
  · apply Nat.le_of_mul_le_mul_left _ positive
    calc d * (parts * q) = n * (parts * e) := by
          rw [Nat.mul_left_comm, whole]
          ac_rfl
      _ ≤ n * (parts * (d * factor) + d * factor) := Nat.mul_le_mul_left n least
      _ = d * (parts * (n * factor) + n * factor) := by
          rw [Nat.mul_add, Nat.mul_add]
          ac_rfl
  · apply Nat.le_of_mul_le_mul_left _ positive
    calc d * (parts * (n * factor)) = n * (parts * (d * factor)) := by ac_rfl
      _ ≤ n * (parts * e + d * factor) := Nat.mul_le_mul_left n most
      _ = parts * (n * e) + d * (n * factor) := by
          rw [Nat.mul_add]
          ac_rfl
      _ = d * (parts * q + n * factor) := by rw [← whole, Nat.mul_add, Nat.mul_left_comm]

/-- What the rounding of the factor costs is less than half of the last place of the product. -/
theorem mul_quarters {n c d factor : Nat} {fits : Representable factor} (hx : IsQuarters (4 * n) x)
    (positive : 0 < d) (close : Close c d factor) (whole : j * d = 4 * (n * c))
    (few : j < Nat.pow 2 53) (small : n * factor < Nat.pow 2 (1072 + 53)) :
    IsQuarters j (x.mul (.finite false factor fits)) := by
  obtain ⟨own, rfl⟩ := hx
  have product : (finite false (4 * n * quarter) own).mul (.finite false factor fits) =
      ofRatio false (n * factor) 1 := by
    have units : 4 * n * quarter * factor = n * factor * quantaPerUnit := by
      rw [unit_eq]
      ac_rfl
    show ofRatio false (4 * n * quarter * factor) quantaPerUnit = _
    rw [units, ← ofRatio_scale false (n * factor) 1 quantaPerUnit_pos, Nat.one_mul]
  have quanta : d * (j * quarter) = n * (c * quantaPerUnit) := by
    calc d * (j * quarter) = j * d * quarter := by ac_rfl
      _ = n * (c * quantaPerUnit) := by
          rw [whole, unit_eq]
          ac_rfl
  obtain ⟨least, most⟩ := close_mul positive quanta close.least close.most
  obtain ⟨below, above⟩ := half_place (lt_place (n * factor)) least most
  have near : nearest (n * factor) 1 = j * quarter := by
    have multiple : place (n * factor) ∣ j * quarter :=
      Nat.dvd_mul_left_of_dvd (place_dvd_quarter small) j
    apply nearest_near
    · rwa [Nat.div_one]
    · rwa [Nat.div_one, Nat.mul_one, Nat.one_mul]
    · rwa [Nat.div_one, Nat.mul_one, Nat.one_mul]
  refine ⟨quarters_fit few, ?_⟩
  rw [product, ofRatio, dif_pos (near ▸ quarters_fit few)]
  simp only [near]

end

end ReleaseGate.Double
