import ReleaseGate.Number.Decimal

/-!
Rounding to the nearest double. Scaling a ratio changes nothing, a representable magnitude is its
own nearest one, and a decimal is read by its value alone: trailing zeros and their exponent cancel.
The decimal that is chosen for a magnitude reads back as it.
-/

namespace ReleaseGate

namespace Double

theorem nearest_scale (num den : Nat) {c : Nat} (hc : 0 < c) :
    nearest (num * c) (den * c) = nearest num den := by
  have quotient : num * c / (den * c) = num / den := Nat.mul_div_mul_right _ _ hc
  have unit : den * c * Nat.pow 2 (spareBits (num / den)) =
      den * Nat.pow 2 (spareBits (num / den)) * c := by
    rw [Nat.mul_assoc, Nat.mul_comm c, ← Nat.mul_assoc]
  have above (a b : Nat) : a * c < 2 * (b * c) ↔ a < 2 * b := by
    rw [← Nat.mul_assoc, Nat.mul_lt_mul_right hc]
  have tie (a b : Nat) : a * c = 2 * (b * c) ↔ a = 2 * b := by
    rw [← Nat.mul_assoc, Nat.mul_right_cancel_iff hc]
  simp only [nearest, quotient, unit, Nat.mul_div_mul_right _ _ hc, Nat.mul_mod_mul_right, above,
    tie]

/-- A ratio that is a double is rounded to itself. -/
theorem nearest_of_representable {q : Nat} (fits : Representable q) {den : Nat} (hd : 0 < den) :
    nearest (q * den) den = q := by
  have place : 0 < Nat.pow 2 (spareBits q) := Nat.pow_pos (by decide)
  have hu : 0 < den * Nat.pow 2 (spareBits q) := Nat.mul_pos hd place
  have whole : Nat.pow 2 (spareBits q) ∣ q := Nat.dvd_of_mod_eq_zero fits.1
  have divides : den * Nat.pow 2 (spareBits q) ∣ q * den := by
    rw [Nat.mul_comm q]
    exact Nat.mul_dvd_mul_left den whole
  have count : q * den / (den * Nat.pow 2 (spareBits q)) = q / Nat.pow 2 (spareBits q) := by
    rw [Nat.mul_comm q, Nat.mul_div_mul_left _ _ hd]
  have rest : q * den % (den * Nat.pow 2 (spareBits q)) = 0 := Nat.mod_eq_zero_of_dvd divides
  have noRounding : ¬(den * Nat.pow 2 (spareBits q) < 2 * 0 ∨
      den * Nat.pow 2 (spareBits q) = 2 * 0 ∧ q / Nat.pow 2 (spareBits q) % 2 = 1) := by
    omega
  simp only [nearest, Nat.mul_div_cancel _ hd, count, rest, if_neg noRounding]
  exact Nat.div_mul_cancel whole

theorem ofRatio_scale (negative : Bool) (num den : Nat) {c : Nat} (hc : 0 < c) :
    ofRatio negative (num * c) (den * c) = ofRatio negative num den := by
  simp only [ofRatio, nearest_scale num den hc]

theorem ofRatio_of_representable (negative : Bool) {q : Nat} (fits : Representable q) {den : Nat}
    (hd : 0 < den) : ofRatio negative (q * den) den = .finite negative q fits := by
  simp only [ofRatio, nearest_of_representable fits hd, dif_pos fits]

/-- The sign of a ratio plays no part in its rounding. -/
theorem ofRatio_sign (negative : Bool) {num den q : Nat} {fits : Representable q}
    (h : ofRatio false num den = .finite false q fits) :
    ofRatio negative num den = .finite negative q fits := by
  unfold ofRatio at h ⊢
  split at h
  · rename_i near
    injection h with _ h
    subst h
    rw [dif_pos near]
  · cases h

end Double

namespace Decimal

-- The number of quanta in a unit counts here by name only.
attribute [local irreducible] quantaPerUnit

theorem digitCount_scale {n : Nat} (hn : 0 < n) (k : Nat) :
    digitCount (n * Nat.pow 10 k) = digitCount n + k := by
  induction k with
  | zero => simp
  | succ k ih =>
      have pos : 0 < n * Nat.pow 10 k := Nat.mul_pos hn (Nat.pow_pos (by decide))
      have power : Nat.pow 10 (k + 1) = Nat.pow 10 k * 10 := rfl
      have step : Nat.toDigits 10 (n * Nat.pow 10 (k + 1)) =
          Nat.toDigits 10 (n * Nat.pow 10 k) ++ ['0'] := by
        rw [power, ← Nat.mul_assoc, Nat.mul_comm (n * Nat.pow 10 k)]
        simpa using (Nat.toDigits_append_toDigits (b := 10) (d :=
          0) (by decide) pos (by decide)).symm
      unfold digitCount at ih ⊢
      rw [step, List.length_append, ih]
      rfl

theorem lt_digitCount {n k : Nat} (h : Nat.pow 10 k ≤ n) : k < digitCount n := by
  cases k with
  | zero => exact Nat.length_toDigits_pos
  | succ k =>
      have : ¬ digitCount n ≤ k + 1 := fun hle =>
        absurd ((Nat.length_toDigits_le_iff (by decide) (Nat.succ_pos k)).1 hle) (Nat.not_lt.2 h)
      omega

theorem digitCount_le {n k : Nat} (hk : 0 < k) (h : n < Nat.pow 10 k) : digitCount n ≤ k :=
  (Nat.length_toDigits_le_iff (by decide) hk).2 h

def ratio (negative : Bool) (d : Decimal) : Double :=
  Double.ofRatio negative (d.digits * Nat.pow 10 d.exponent.toNat * quantaPerUnit)
    (Nat.pow 10 (-d.exponent).toNat)

theorem toDouble_eq (negative : Bool) (d : Decimal) :
    d.toDouble negative =
      if d.digits = 0 ∨ d.exponent + digitCount d.digits < -330 then Double.zero negative
      else if 310 < d.exponent + digitCount d.digits then .infinite negative
      else d.ratio negative := by
  simp only [toDouble, ratio, Nat.pow_eq]
  congr 2
  split
  · rename_i h
    rw [Int.toNat_eq_zero.2 (by omega : -d.exponent ≤ 0), Nat.pow_zero]
  · rename_i h
    rw [Int.toNat_eq_zero.2 (by omega : d.exponent ≤ 0), Nat.pow_zero, Nat.mul_one]

theorem ratio_scale (negative : Bool) (n k : Nat) (e : Int) :
    ratio negative ⟨n * Nat.pow 10 k, e⟩ = ratio negative ⟨n, e + k⟩ := by
  have tens (m : Nat) : 0 < Nat.pow 10 m := Nat.pow_pos (by decide)
  have add (l m : Nat) : Nat.pow 10 (l + m) = Nat.pow 10 l * Nat.pow 10 m := Nat.pow_add 10 l m
  -- Both ratios are brought to the product of their denominators.
  unfold ratio
  rw [← Double.ofRatio_scale negative _ (Nat.pow 10 (-e).toNat) (tens (-(e + k)).toNat),
    ← Double.ofRatio_scale negative _ (Nat.pow 10 (-(e + k)).toNat) (tens (-e).toNat)]
  congr 1
  · have places : k + e.toNat + (-(e + k)).toNat = (e + k).toNat + (-e).toNat := by omega
    calc n * Nat.pow 10 k * Nat.pow 10 e.toNat * quantaPerUnit * Nat.pow 10 (-(e + k)).toNat
        = n * Nat.pow 10 (k + e.toNat + (-(e + k)).toNat) * quantaPerUnit := by
          rw [add, add]
          ac_rfl
      _ = n * Nat.pow 10 (e + k).toNat * quantaPerUnit * Nat.pow 10 (-e).toNat := by
          rw [places, add]
          ac_rfl
  · exact Nat.mul_comm _ _

/-- Zeros at the end of the digits count as a power of ten. -/
theorem toDouble_scale (negative : Bool) (n k : Nat) (e : Int) :
    toDouble negative ⟨n * Nat.pow 10 k, e⟩ = toDouble negative ⟨n, e + k⟩ := by
  rw [toDouble_eq, toDouble_eq, ratio_scale]
  obtain rfl | hn := Nat.eq_zero_or_pos n
  · simp
  · have top : e + (digitCount (n * Nat.pow 10 k) : Int) = e + k + digitCount n := by
      rw [digitCount_scale hn]
      omega
    have some : n * Nat.pow 10 k ≠ 0 := Nat.ne_of_gt (Nat.mul_pos hn (Nat.pow_pos (by decide)))
    simp only [top, some, Nat.ne_of_gt hn]

theorem toDouble_sign (negative : Bool) {d : Decimal} {q : Nat} {fits : Representable q}
    (h : d.toDouble false = .finite false q fits) :
    d.toDouble negative = .finite negative q fits := by
  rw [toDouble_eq] at h ⊢
  split at h
  · injection h with _ h
    subst h
    rw [if_pos ‹_›]
    rfl
  · rw [if_neg ‹_›]
    split at h
    · cases h
    · rw [if_neg ‹_›]
      exact Double.ofRatio_sign negative h

/-- The powers behind the full expansion of a magnitude, kept by their bounds. -/
theorem exact_shape : ∃ fives places low high : Nat,
    (∀ q, exact q = ⟨q * fives, -(places : Int)⟩) ∧ fives * quantaPerUnit = Nat.pow 10 places ∧
    Nat.pow 10 low ≤ fives ∧ Nat.pow 2 2098 * fives < Nat.pow 10 high ∧
    places = 1074 ∧ low = 744 ∧ high = 1384 :=
  ⟨Nat.pow 5 1074, 1074, 744, 1384, fun _ => rfl, by decide +kernel, by decide +kernel,
    by decide +kernel, rfl, rfl, rfl⟩

/-- The full expansion of a magnitude is within the range of decimals that are rounded. -/
theorem toDouble_exact {q : Nat} (fits : Representable q) (hq : 0 < q) :
    (exact q).toDouble false = .finite false q fits := by
  obtain ⟨fives, places, few, many, shape, scaled, least, most, hp, hf, hm⟩ := exact_shape
  have pos : 0 < fives := Nat.lt_of_lt_of_le (Nat.pow_pos (by decide)) least
  have low : few < digitCount (q * fives) :=
    lt_digitCount (Nat.le_trans least (Nat.le_mul_of_pos_left _ hq))
  have high : digitCount (q * fives) ≤ many :=
    digitCount_le (by omega) (Nat.lt_trans (Nat.mul_lt_mul_of_pos_right fits.2 pos) most)
  have expansion : ratio false ⟨q * fives, -(places : Int)⟩ = .finite false q fits := by
    have whole : (-(places : Int)).toNat = 0 := by omega
    have scale : (- -(places : Int)).toNat = places := by omega
    have one : Nat.pow 10 0 = 1 := rfl
    simp only [ratio, whole, scale, one, Nat.mul_one, Nat.mul_assoc, scaled]
    exact Double.ofRatio_of_representable false fits (Nat.pow_pos (by decide))
  have some : q * fives ≠ 0 := Nat.ne_of_gt (Nat.mul_pos hq pos)
  rw [shape, toDouble_eq, expansion]
  simp only [some, false_or]
  rw [if_neg (by omega), if_neg (by omega)]

/-- The shortest decimal of a double reads as the double. -/
theorem toDouble_shortest {q : Nat} (fits : Representable q) (hq : 0 < q) (negative : Bool) :
    (shortest q fits).toDouble negative = .finite negative q fits := by
  apply toDouble_sign
  unfold shortest
  cases h : readingBack (.finite false q fits) (candidates q) with
  | none => exact toDouble_exact fits hq
  | some d => simpa using List.find?_some h

theorem shortest_pos {q : Nat} (fits : Representable q) (hq : 0 < q) :
    0 < (shortest q fits).digits := by
  have reads := toDouble_shortest fits hq false
  refine Nat.pos_of_ne_zero fun zero => ?_
  rw [toDouble_eq, if_pos (Or.inl zero)] at reads
  injection reads with _ none
  omega

end Decimal

end ReleaseGate
