import ReleaseGate.Proofs.Json.Numbers
import ReleaseGate.Proofs.Number.Rounding

/-!
What is written for an integer or a finite double is a number text, and it denotes the same number:
the digits that are written of a double round to it, wherever the point is put.
-/

namespace ReleaseGate.Json

open NumberText

theorem isDigit_of_mem_natDigits {n : Nat} {c : Char} (h : c ∈ natDigits n) : isDigit c = true := by
  have := Nat.isDigit_of_mem_toDigits (b := 10) (by decide) (by decide) h
  simpa [isDigit, Char.isDigit, Char.le_def] using this

/-- Only zero is written with a leading zero. -/
theorem natDigits_head {n : Nat} (h : (natDigits n).head? = some '0') : natDigits n = ['0'] := by
  induction n using Nat.strongRecOn with
  | _ n ih =>
      unfold natDigits at h ih ⊢
      by_cases small : n < 10
      · rw [Nat.toDigits_of_lt_base small] at h ⊢
        simpa using h
      · have parts := Nat.toDigits_of_base_le (b := 10) (n := n) (by decide) (by omega)
        have head : (Nat.toDigits 10 (n / 10)).head? = some '0' := by
          rw [parts, List.head?_append] at h
          obtain ⟨d, ds, hd⟩ := List.exists_cons_of_ne_nil
            (Nat.toDigits_ne_nil (n := n / 10) (b := 10))
          simpa [hd] using h
        have zero : n / 10 = 0 := by
          have value := Nat.ofDigitChars_ten_toDigits (n := n / 10)
          rw [ih (n / 10) (by omega) head] at value
          exact value.symm
        omega

def integerText (i : Int) : NumberText where
  negative := i < 0
  whole := natDigits i.natAbs
  fraction := []
  exponent := none
  whole_digits _ := isDigit_of_mem_natDigits
  whole_some := Nat.toDigits_ne_nil
  no_leading_zero := natDigits_head
  fraction_digits _ h := nomatch h
  exponent_digits _ h := nomatch h

theorem integerText_text (i : Int) : (integerText i).text = intDigits i := by
  simp only [text, integerText, sign, pointed, power, if_true, List.append_nil, intDigits,
    decide_eq_true_eq]
  split <;> rfl

theorem integerText_value (i : Int) : (integerText i).value = .int i := by
  have digits : digitsValue (natDigits i.natAbs) = i.natAbs := Nat.ofDigitChars_ten_toDigits
  simp only [value, integerText, true_and, if_true, signed, digits, decide_eq_true_eq]
  congr 1
  split <;> omega

theorem dropTrailingZeros_append (s : List Char) :
    ∃ z, s = Decimal.dropTrailingZeros s ++ List.replicate z '0' := by
  have parts := List.takeWhile_append_dropWhile (p := (· == '0')) (l := s.reverse)
  have zeros : (s.reverse.takeWhile (· == '0')).reverse =
      List.replicate (s.reverse.takeWhile (· == '0')).length '0' := by
    refine List.eq_replicate_iff.2 ⟨List.length_reverse, fun c hc => ?_⟩
    simpa using List.all_eq_true.1 List.all_takeWhile c (List.mem_reverse.1 hc)
  refine ⟨(s.reverse.takeWhile (· == '0')).length, ?_⟩
  rw [Decimal.dropTrailingZeros, ← zeros, ← List.reverse_append, parts, List.reverse_reverse]

/-- Digits that can be written with a point among them: there are some, and the first is no zero. -/
structure Significant (ds : List Char) : Prop where
  digits : ∀ c ∈ ds, isDigit c = true
  nonempty : ds ≠ []
  head : ds.head? ≠ some '0'

theorem zeros_digits {n : Nat} {c : Char} (h : c ∈ List.replicate n '0') : isDigit c = true := by
  rw [List.eq_of_mem_replicate h]
  decide

/-- A text with a point in it reads as a double. -/
theorem exists_pointed (negative : Bool) (whole fraction : List Char)
    (exponent : Option (Bool × List Char)) (hw : ∀ c ∈ whole, isDigit c = true)
    (wholeSome : whole ≠ []) (noZero : whole.head? = some '0' → whole = ['0'])
    (hf : ∀ c ∈ fraction, isDigit c = true) (fractionSome : fraction ≠ [])
    (he : ∀ e ∈ exponent, e.2 ≠ [] ∧ ∀ c ∈ e.2, isDigit c = true) :
    ∃ n : NumberText,
      n.text = sign negative ++ (whole ++ ('.' :: fraction ++ power exponent)) ∧
      n.value = .float (Decimal.toDouble negative
        ⟨digitsValue (whole ++ fraction), powerValue exponent - fraction.length⟩) := by
  refine ⟨⟨negative, whole, fraction, exponent, hw, wholeSome, noZero, hf, he⟩, ?_, ?_⟩
  · simp only [text, pointed, if_neg fractionSome]
  · simp only [NumberText.value, fractionSome, false_and, if_false]

section

variable {ds : List Char} (hs : Significant ds) (negative : Bool) {place : Int}
include hs

/-- The point is before all digits, with zeros in between. -/
theorem pointBefore_text (low : place ≤ 0) :
    ∃ n : NumberText,
      n.text = sign negative ++ '0' :: '.' :: (List.replicate (-place).toNat '0' ++ ds) ∧
      n.value = .float (Decimal.toDouble negative ⟨digitsValue ds, place - ds.length⟩) := by
  have fractionDigits : ∀ c ∈ List.replicate (-place).toNat '0' ++ ds, isDigit c = true :=
    fun c hc => (List.mem_append.1 hc).elim zeros_digits (hs.digits c)
  obtain ⟨n, ht, hv⟩ := exists_pointed negative ['0'] _ none (List.forall_mem_singleton.2 rfl)
    (by decide) (fun _ => rfl) fractionDigits (by simp [hs.nonempty]) (by simp)
  have value : digitsValue (['0'] ++ (List.replicate (-place).toNat '0' ++ ds)) =
      digitsValue ds := digitsValue_zeros_append ds ((-place).toNat + 1)
  have exponent : 0 - ((List.replicate (-place).toNat '0' ++ ds).length : Int) =
      place - ds.length := by
    rw [List.length_append, List.length_replicate]
    omega
  refine ⟨n, by simpa [power] using ht, ?_⟩
  rw [hv, value, powerValue, exponent]

/-- The point is after all digits and more zeros; one zero stands after it. -/
theorem pointAfter_text (long : (ds.length : Int) ≤ place) :
    ∃ n : NumberText,
      n.text = sign negative ++ (ds ++ List.replicate (place - ds.length).toNat '0' ++ ['.', '0']) ∧
      n.value = .float (Decimal.toDouble negative ⟨digitsValue ds, place - ds.length⟩) := by
  have wholeDigits : ∀ c ∈ ds ++ List.replicate (place - ds.length).toNat '0', isDigit c = true :=
    fun c hc => (List.mem_append.1 hc).elim (hs.digits c) zeros_digits
  have noZero : (ds ++ List.replicate (place - ds.length).toNat '0').head? ≠ some '0' := by
    obtain ⟨c, cs, hds⟩ := List.exists_cons_of_ne_nil hs.nonempty
    simpa [hds] using hs.head
  obtain ⟨n, ht, hv⟩ := exists_pointed negative _ ['0'] none wholeDigits (by simp [hs.nonempty])
    (fun h => absurd h noZero) (List.forall_mem_singleton.2 rfl) (by decide) (by simp)
  have value : digitsValue (ds ++ List.replicate (place - ds.length).toNat '0' ++ ['0']) =
      digitsValue ds * Nat.pow 10 ((place - ds.length).toNat + 1) := by
    rw [List.append_assoc, ← List.replicate_succ', digitsValue_append_zeros]
  have exponent : 0 - ((['0'] : List Char).length : Int) +
      ((place - ds.length).toNat + 1 : Nat) = place - ds.length := by
    rw [List.length_singleton]
    omega
  refine ⟨n, by simpa [power] using ht, ?_⟩
  rw [hv, value, powerValue, Decimal.toDouble_scale, exponent]

/-- The point is between two digits. -/
theorem pointBetween_text (high : 0 < place) (short : place < ds.length) :
    ∃ n : NumberText,
      n.text = sign negative ++ (ds.take place.toNat ++ '.' :: ds.drop place.toNat) ∧
      n.value = .float (Decimal.toDouble negative ⟨digitsValue ds, place - ds.length⟩) := by
  have before : 0 < place.toNat := by omega
  have rest : ds.drop place.toNat ≠ [] := by
    rw [ne_eq, List.drop_eq_nil_iff]
    omega
  have noZero : (ds.take place.toNat).head? ≠ some '0' := by
    rw [List.head?_take, if_neg (Nat.ne_of_gt before)]
    exact hs.head
  obtain ⟨n, ht, hv⟩ := exists_pointed negative _ _ none
    (fun c hc => hs.digits c (List.mem_of_mem_take hc))
    (by simp [hs.nonempty, Nat.ne_of_gt before]) (fun h => absurd h noZero)
    (fun c hc => hs.digits c (List.mem_of_mem_drop hc)) rest (by simp)
  have exponent : 0 - ((ds.drop place.toNat).length : Int) = place - ds.length := by
    rw [List.length_drop]
    omega
  refine ⟨n, by simpa [power] using ht, ?_⟩
  rw [hv, List.take_append_drop, powerValue, exponent]

/-- Plain notation is a number text, and reads as the value the digits make. -/
theorem positional_text (place : Int) :
    ∃ n : NumberText, n.text = sign negative ++ Decimal.positional ds place ∧
      n.value = .float (Decimal.toDouble negative ⟨digitsValue ds, place - ds.length⟩) := by
  unfold Decimal.positional
  split
  · exact pointBefore_text hs negative ‹_›
  · split
    · exact pointAfter_text hs negative ‹_›
    · exact pointBetween_text hs negative (by omega) (by omega)

end

def padded (n : Nat) : List Char :=
  if (natDigits n).length < 2 then '0' :: natDigits n else natDigits n

theorem padded_digits (n : Nat) : padded n ≠ [] ∧ ∀ c ∈ padded n, isDigit c = true := by
  unfold padded
  split
  · exact ⟨List.cons_ne_nil _ _, List.forall_mem_cons.2
      ⟨by decide, fun _ => isDigit_of_mem_natDigits⟩⟩
  · exact ⟨Nat.toDigits_ne_nil, fun _ => isDigit_of_mem_natDigits⟩

theorem digitsValue_padded (n : Nat) : digitsValue (padded n) = n := by
  have digits : digitsValue (natDigits n) = n := Nat.ofDigitChars_ten_toDigits
  unfold padded
  split
  · exact (digitsValue_zeros_append (natDigits n) 1).trans digits
  · exact digits

theorem scientific_text {ds : List Char} (hs : Significant ds) (negative : Bool) (exponent : Int) :
    ∃ n : NumberText, n.text = sign negative ++ Decimal.scientific ds exponent ∧
      n.value = .float (Decimal.toDouble negative
        ⟨digitsValue ds, exponent - (ds.length - 1)⟩) := by
  obtain ⟨c, cs, rfl⟩ := List.exists_cons_of_ne_nil hs.nonempty
  have nonzero : c ≠ '0' := fun h => hs.head (by rw [h]; rfl)
  have digits := List.forall_mem_cons.1 hs.digits
  refine ⟨⟨negative, [c], cs, some (exponent < 0, padded exponent.natAbs), ?_, List.cons_ne_nil _ _,
    ?_, digits.2, ?_⟩, ?_, ?_⟩
  · exact List.forall_mem_singleton.2 digits.1
  · intro h
    exact absurd (Option.some.inj h) nonzero
  · intro e he
    obtain rfl := Option.some.inj he
    exact padded_digits _
  · cases cs <;>
      simp [text, pointed, power, Decimal.scientific, padded]
  · have power : signed (exponent < 0) (digitsValue (padded exponent.natAbs)) = exponent := by
      simp only [signed, digitsValue_padded, decide_eq_true_eq]
      split <;> omega
    simp [NumberText.value, powerValue, power]

/-- The digits of a positive number up to its trailing zeros. -/
theorem significant_digits {n : Nat} (hn : 0 < n) :
    ∃ (ds : List Char) (z : Nat), Decimal.dropTrailingZeros (natDigits n) = ds ∧ Significant ds ∧
      (natDigits n).length = ds.length + z ∧ digitsValue ds * Nat.pow 10 z = n := by
  obtain ⟨z, parts⟩ := dropTrailingZeros_append (natDigits n)
  generalize Decimal.dropTrailingZeros (natDigits n) = ds at parts
  have value : digitsValue (natDigits n) = n := Nat.ofDigitChars_ten_toDigits
  have scaled : digitsValue ds * Nat.pow 10 z = n := by
    rw [← digitsValue_append_zeros, ← parts, value]
  have nonempty : ds ≠ [] := by
    rintro rfl
    exact absurd hn (by rw [← scaled]; simp [digitsValue])
  refine ⟨ds, z, rfl, ⟨fun c hc => ?_, nonempty, fun h => ?_⟩, ?_, scaled⟩
  · apply isDigit_of_mem_natDigits (n := n)
    rw [parts]
    exact List.mem_append_left _ hc
  · -- A leading zero would make the number zero.
    have zero : natDigits n = ['0'] := by
      apply natDigits_head
      obtain ⟨c, cs, rfl⟩ := List.exists_cons_of_ne_nil nonempty
      rw [parts]
      exact h
    rw [zero] at value
    exact absurd hn (by rw [← value]; decide)
  · rw [parts, List.length_append, List.length_replicate]

/-- The text of a positive decimal, signed or not, reads as the double nearest to it. -/
theorem digitsText_text {d : Decimal} (hd : 0 < d.digits) (negative : Bool) :
    ∃ n : NumberText, n.text = sign negative ++ d.digitsText ∧
      n.value = .float (d.toDouble negative) := by
  obtain ⟨ds, z, dropped, significant, length, scaled⟩ := significant_digits hd
  have reads : d.toDouble negative =
    Decimal.toDouble negative ⟨digitsValue ds, d.exponent + z⟩ := by
    rw [← Decimal.toDouble_scale, scaled]
  unfold Decimal.digitsText
  simp only [dropped, length, reads]
  split
  · obtain ⟨n, ht, hv⟩ :=
      positional_text significant negative (d.exponent + (ds.length + z : Nat))
    have place : d.exponent + (ds.length + z : Nat) - ds.length = d.exponent + z := by omega
    exact ⟨n, ht, by rw [hv, place]⟩
  · obtain ⟨n, ht, hv⟩ :=
      scientific_text significant negative (d.exponent + (ds.length + z : Nat) - 1)
    have place : d.exponent + (ds.length + z : Nat) - 1 - (ds.length - 1) = d.exponent + z := by
      omega
    exact ⟨n, ht, by rw [hv, place]⟩

/-- A finite double is written as a number text that reads as itself. -/
theorem double_text (negative : Bool) {q : Nat} (fits : Representable q) (words : NonFiniteWords) :
    ∃ n : NumberText, n.text = Double.digits words (.finite negative q fits) ∧
      n.value = .float (.finite negative q fits) := by
  by_cases zero : q = 0
  · subst zero
    obtain ⟨n, ht, hv⟩ := exists_pointed negative ['0'] ['0'] none
      (List.forall_mem_singleton.2 rfl) (by decide) (fun _ => rfl) (List.forall_mem_singleton.2 rfl)
      (by decide) (by simp)
    refine ⟨n, by simpa [power, sign, Double.digits] using ht, ?_⟩
    rw [hv, Decimal.toDouble_eq, if_pos (Or.inl (by decide))]
    rfl
  · have pos : 0 < q := Nat.pos_of_ne_zero zero
    obtain ⟨n, ht, hv⟩ := digitsText_text (Decimal.shortest_pos fits pos) negative
    refine ⟨n, by simpa [sign, Double.digits, zero] using ht, ?_⟩
    rw [hv, Decimal.toDouble_shortest fits pos]

end ReleaseGate.Json
