import ReleaseGate.Json.Write
import ReleaseGate.Json.Token

/-!
Numbers in JSON text. A number text is a sign, a whole part without superfluous zeros, and an
optional fraction and exponent; it reads as the number that its parts denote.
-/

namespace ReleaseGate.Json

/-- The parts of a number in JSON text; an empty fraction is not written. -/
structure NumberText where
  negative : Bool
  whole : List Char
  fraction : List Char
  /-- The sign and the digits of an exponent. -/
  exponent : Option (Bool × List Char)
  whole_digits : ∀ c ∈ whole, isDigit c = true
  whole_some : whole ≠ []
  no_leading_zero : whole.head? = some '0' → whole = ['0']
  fraction_digits : ∀ c ∈ fraction, isDigit c = true
  exponent_digits : ∀ e ∈ exponent, e.2 ≠ [] ∧ ∀ c ∈ e.2, isDigit c = true

abbrev digitsValue (ds : List Char) : Nat := Nat.ofDigitChars 10 ds 0

namespace NumberText

def sign (negative : Bool) : List Char := if negative then ['-'] else []

def pointed (fraction : List Char) : List Char :=
  if fraction = [] then [] else '.' :: fraction

def power : Option (Bool × List Char) → List Char
  | none => []
  | some (negative, ds) => 'e' :: (if negative then '-' else '+') :: ds

def text (n : NumberText) : List Char :=
  sign n.negative ++ (n.whole ++ (pointed n.fraction ++ power n.exponent))

def signed (negative : Bool) (n : Nat) : Int := if negative then -(n : Int) else n

def powerValue : Option (Bool × List Char) → Int
  | none => 0
  | some (negative, ds) => signed negative (digitsValue ds)

def value (n : NumberText) : Value :=
  if n.fraction = [] ∧ n.exponent = none then .int (signed n.negative (digitsValue n.whole))
  else .float (Decimal.toDouble n.negative
    ⟨digitsValue (n.whole ++ n.fraction), powerValue n.exponent - n.fraction.length⟩)

end NumberText

open NumberText

theorem digitsValue_append_zeros (ds : List Char) (n : Nat) :
    digitsValue (ds ++ List.replicate n '0') = digitsValue ds * Nat.pow 10 n := by
  rw [Nat.pow_eq, digitsValue, Nat.ofDigitChars_append, Nat.ofDigitChars_replicate_zero,
    Nat.mul_comm]

theorem digitsValue_zeros_append (ds : List Char) (n : Nat) :
    digitsValue (List.replicate n '0' ++ ds) = digitsValue ds := by
  rw [digitsValue, Nat.ofDigitChars_append, Nat.ofDigitChars_replicate_zero, Nat.mul_zero]

theorem foldl_digitValue (ds : List Char) (start : Nat) :
    ds.foldl (fun (n : Int) d => 10 * n + digitValue d) start = Nat.ofDigitChars 10 ds start := by
  induction ds generalizing start with
  | nil => rfl
  | cons d ds ih =>
      rw [List.foldl_cons, Nat.ofDigitChars_cons, ← ih]
      congr 1

theorem foldl_digitValue_zero (ds : List Char) :
    ds.foldl (fun (n : Int) d => 10 * n + digitValue d) 0 = digitsValue ds :=
  foldl_digitValue ds 0

theorem ofDigits_eq (negative : Bool) (whole fraction : List Char) (exponent : Int) :
    Double.ofDigits negative (whole.map digitValue) (fraction.map digitValue) exponent =
      Decimal.toDouble negative ⟨digitsValue (whole ++ fraction), exponent - fraction.length⟩ := by
  simp only [Double.ofDigits, ← List.map_append, List.foldl_map, List.length_map, digitsValue,
    Nat.ofDigitChars_eq_foldl, digitValue]

theorem ofDigits_whole (negative : Bool) (whole : List Char) (exponent : Int) :
    Double.ofDigits negative (whole.map digitValue) [] exponent =
      Decimal.toDouble negative ⟨digitsValue whole, exponent⟩ := by
  simpa using ofDigits_eq negative whole [] exponent

theorem not_digit_of_mark {c : Char} (h : c = '.' ∨ c = 'e') : isDigit c = false := by
  rcases h with rfl | rfl <;> decide

/-- The digits at the head of a text are all there up to a character that is none. -/
theorem takeWhile_digits {ds rest : List Char} (hd : ∀ c ∈ ds, isDigit c = true)
    (hr : ∀ c ∈ rest.head?, isDigit c = false) : (ds ++ rest).takeWhile isDigit = ds := by
  rw [List.takeWhile_append_of_pos hd]
  cases rest with
  | nil => simp
  | cons c rest => simp [hr c rfl]

theorem dropWhile_digits {ds rest : List Char} (hd : ∀ c ∈ ds, isDigit c = true)
    (hr : ∀ c ∈ rest.head?, isDigit c = false) : (ds ++ rest).dropWhile isDigit = rest := by
  rw [List.dropWhile_append_of_pos hd]
  cases rest with
  | nil => rfl
  | cons c rest => simp [hr c rfl]

theorem readExponent_digits (negative : Bool) {ds : List Char} (digitsSome : ds ≠ [])
    (hd : ∀ c ∈ ds, isDigit c = true) :
    readExponent ((if negative then '-' else '+') :: ds) =
      some (signed negative (digitsValue ds)) := by
  have all : ds.all isDigit = true := List.all_eq_true.2 hd
  have empty : ds.isEmpty = false := by simpa using digitsSome
  cases negative <;>
    simp [readExponent, all, empty, foldl_digitValue_zero, signed]

theorem power_head_not_digit (e : Option (Bool × List Char)) :
    ∀ c ∈ (power e).head?, isDigit c = false := by
  intro c hc
  cases e with
  | none => simp [power] at hc
  | some e =>
      simp only [power, List.head?_cons, Option.mem_def, Option.some.injEq] at hc
      exact not_digit_of_mark (Or.inr hc.symm)

theorem tail_head_not_digit (fraction : List Char) (e : Option (Bool × List Char)) :
    ∀ c ∈ (pointed fraction ++ power e).head?, isDigit c = false := by
  intro c hc
  by_cases h : fraction = []
  · simp only [pointed, if_pos h, List.nil_append] at hc
    exact power_head_not_digit e c hc
  · simp only [pointed, if_neg h, List.cons_append, List.head?_cons, Option.mem_def,
      Option.some.injEq] at hc
    exact not_digit_of_mark (Or.inl hc.symm)

/-- Fraction and exponent are read as they were written. -/
theorem readScaled_tail (n : NumberText) :
    readScaled n.negative n.whole (pointed n.fraction ++ power n.exponent) = some n.value := by
  obtain ⟨negative, whole, fraction, exponent, _, _, _, fractionDigits, exponentDigits⟩ := n
  by_cases empty : fraction = []
  · subst empty
    cases exponent with
    | none => simp [readScaled, pointed, power, value, foldl_digitValue_zero, signed]
    | some e =>
        obtain ⟨digitsSome, digits⟩ := exponentDigits e rfl
        simp [readScaled, pointed, power, value, powerValue,
          readExponent_digits e.1 digitsSome digits,
          ofDigits_whole]
  · have taken := takeWhile_digits fractionDigits (power_head_not_digit exponent)
    have dropped := dropWhile_digits fractionDigits (power_head_not_digit exponent)
    cases exponent with
    | none =>
        simp only [power, List.append_nil] at taken dropped
        simp [readScaled, pointed, power, value, powerValue, empty, taken, dropped, ofDigits_eq]
    | some e =>
        obtain ⟨digitsSome, digits⟩ := exponentDigits e rfl
        simp only [power] at taken dropped
        simp [readScaled, pointed, power, value, powerValue, empty, taken, dropped, ofDigits_eq,
          readExponent_digits e.1 digitsSome digits]

theorem digit_ne_minus {c : Char} (h : isDigit c = true) : c ≠ '-' := by
  rintro rfl
  exact absurd h (by decide)

/-- What a reader does once the sign is off. -/
theorem readNumber_signed (negative : Bool) {s : List Char} (hs : ∀ c ∈ s.head?, c ≠ '-') :
    readNumber (sign negative ++ s) =
      match s.takeWhile isDigit with
      | [] => none
      | '0' :: _ :: _ => none
      | _ => readScaled negative (s.takeWhile isDigit) (s.dropWhile isDigit) := by
  cases negative with
  | true => rfl
  | false =>
      cases s with
      | nil => rfl
      | cons c rest =>
          have minus : c ≠ '-' := hs c rfl
          simp only [sign, Bool.false_eq_true, if_false, List.nil_append]
          unfold readNumber
          split
          rename_i h
          split at h
          · injection ‹c :: rest = _› with hc
            exact absurd hc minus
          · injection h with hneg hds
            subst hneg hds
            rfl

/-- A number text is read as its value. -/
theorem readNumber_text (n : NumberText) : readNumber n.text = some n.value := by
  have taken := takeWhile_digits n.whole_digits (tail_head_not_digit n.fraction n.exponent)
  have dropped := dropWhile_digits n.whole_digits (tail_head_not_digit n.fraction n.exponent)
  have unsigned : ∀ c ∈ (n.whole ++ (pointed n.fraction ++ power n.exponent)).head?, c ≠ '-' := by
    intro c hc
    obtain ⟨d, ds, hw⟩ := List.exists_cons_of_ne_nil n.whole_some
    have digit : isDigit d = true := n.whole_digits d (hw ▸ List.mem_cons_self ..)
    simp only [hw, List.cons_append, List.head?_cons, Option.mem_def, Option.some.injEq] at hc
    exact hc ▸ digit_ne_minus digit
  rw [text, readNumber_signed n.negative unsigned, taken, dropped]
  split
  · exact absurd ‹_› n.whole_some
  · rename_i h
    have single := n.no_leading_zero (by rw [h]; rfl)
    rw [h] at single
    cases single
  · exact readScaled_tail n

end ReleaseGate.Json
