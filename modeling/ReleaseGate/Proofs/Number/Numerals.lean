import ReleaseGate.Number.Numeral
import ReleaseGate.Proofs.Text.Characters

/-!
Numerals without an exponent: digits of any script, with a sign and a fraction if need be. As
settings read them, such a text stands for the double nearest to its decimal.
-/

namespace ReleaseGate

structure Numeral where
  negative : Bool
  whole : List CodePoint
  /-- The digits behind the point; there is no point without them. -/
  fraction : List CodePoint
  some_whole : whole ≠ []
  whole_digits : ∀ c ∈ whole, Text.isDecimalDigit c = true
  fraction_digits : ∀ c ∈ fraction, Text.isDecimalDigit c = true

namespace Numeral

def tail (n : Numeral) : List CodePoint := if n.fraction = [] then [] else '.' :: n.fraction

def unsigned (n : Numeral) : List CodePoint := n.whole ++ n.tail

def text (n : Numeral) : List CodePoint := if n.negative then '-' :: n.unsigned else n.unsigned

def value (n : Numeral) : Double :=
  Double.ofDigits n.negative (values n.whole) (values n.fraction) 0

theorem unsigned_head (n : Numeral) :
    ∃ d rest, n.unsigned = d :: rest ∧ Text.isDecimalDigit d = true := by
  obtain ⟨d, more, whole⟩ := List.exists_cons_of_ne_nil n.some_whole
  refine ⟨d, more ++ n.tail, ?_, n.whole_digits d (whole ▸ List.mem_cons_self)⟩
  rw [unsigned, whole, List.cons_append]

theorem mem_text {n : Numeral} {c : CodePoint} (h : c ∈ n.text) :
    c = '-' ∨ c = '.' ∨ Text.isDecimalDigit c = true := by
  have unsigned : c ∈ n.unsigned → c = '.' ∨ Text.isDecimalDigit c = true := by
    intro h
    obtain h | h := List.mem_append.1 h
    · exact .inr (n.whole_digits c h)
    · unfold tail at h
      split at h
      · cases h
      · obtain rfl | h := List.mem_cons.1 h
        · exact .inl rfl
        · exact .inr (n.fraction_digits c h)
  unfold text at h
  split at h
  · obtain rfl | h := List.mem_cons.1 h
    · exact .inl rfl
    · exact .inr (unsigned h)
  · exact .inr (unsigned h)

theorem text_unblank (n : Numeral) : ∀ c ∈ n.text, Text.isBlank c = false ∧ c ≠ '_' := by
  intro c h
  obtain rfl | rfl | digit := mem_text h
  · decide
  · decide
  · exact ⟨Text.not_isBlank_of_isDecimalDigit digit, Text.isDecimalDigit_ne digit (by decide)⟩

/-- What follows the digits of a number, if it neither adds to them nor is a point. -/
def Stops (rest : List CodePoint) : Prop :=
  ∀ c ∈ rest.head?, Text.isDecimalDigit c = false ∧ c ≠ '.'

theorem stops_nil : Stops [] := fun _ none => nomatch none

theorem takeWhile_digits {l rest : List CodePoint} (digits : ∀ c ∈ l, Text.isDecimalDigit c = true)
    (stops : ∀ c ∈ rest.head?, Text.isDecimalDigit c = false) :
    (l ++ rest).takeWhile Text.isDecimalDigit = l ∧
      (l ++ rest).dropWhile Text.isDecimalDigit = rest := by
  rw [List.takeWhile_append_of_pos digits, List.dropWhile_append_of_pos digits]
  cases rest with
  | nil => simp
  | cons c rest => simp [stops c rfl]

theorem tail_stops (n : Numeral) {rest : List CodePoint} (stops : Stops rest) :
    ∀ c ∈ (n.tail ++ rest).head?, Text.isDecimalDigit c = false := by
  unfold tail
  split
  · exact fun c hc => (stops c hc).1
  · rintro _ ⟨⟩
    decide

theorem splitSign_text (n : Numeral) : splitSign n.text = (n.negative, n.unsigned) := by
  obtain ⟨d, rest, unsigned, digit⟩ := n.unsigned_head
  have minus : d ≠ '-' := Text.isDecimalDigit_ne digit (by decide)
  have plus : d ≠ '+' := Text.isDecimalDigit_ne digit (by decide)
  cases sign : n.negative with
  | true => simp [text, sign, splitSign]
  | false => simp [text, sign, unsigned, splitSign, minus, plus]

theorem withoutSeparators_self {s : List CodePoint} (h : ∀ c ∈ s, c ≠ '_') (afterDigit : Bool) :
    withoutSeparators afterDigit s = some s := by
  induction s generalizing afterDigit with
  | nil => rfl
  | cons c s ih =>
      rw [withoutSeparators, ih fun c hc => h c (List.mem_cons_of_mem _ hc)]
      · rfl
      · exact h c List.mem_cons_self

theorem trim_self {s : List CodePoint} (h : ∀ c ∈ s, Text.isBlank c = false) : trim s = s := by
  have kept : ∀ l : List CodePoint, (∀ c ∈ l, c ∈ s) → l.dropWhile isMargin = l := by
    intro l within
    cases l with
    | nil => rfl
    | cons c l => simp [isMargin, h c (within c List.mem_cons_self)]
  rw [trim, kept s fun _ hc => hc, kept s.reverse fun _ hc => List.mem_reverse.1 hc,
    List.reverse_reverse]

theorem word?_unsigned (negative : Bool) (n : Numeral) : word? negative n.unsigned = none := by
  obtain ⟨d, rest, unsigned, digit⟩ := n.unsigned_head
  have place := Text.isDecimalDigit_toNat digit
  have lower : d.map Char.toLower = d := by
    cases d with
    | surrogate u => rfl
    | char c =>
        have small : ¬ (65 ≤ c.toNat ∧ c.toNat ≤ 90) := by
          change 48 ≤ c.toNat ∧ c.toNat ≤ 57 ∨ 128 ≤ c.toNat at place
          omega
        exact congrArg CodePoint.char (dif_neg small)
  have other : ∀ word : Text,
      (word.toList.head?.all fun c => 97 ≤ c.toNat && c.toNat ≤ 122) = true →
      Text.ofList ((d :: rest).map (CodePoint.map Char.toLower)) ≠ word := by
    rintro _ letter rfl
    simp [lower] at letter
    omega
  rw [word?, unsigned, if_neg (other "nan" (by decide)),
    if_neg (not_or.2 ⟨other "inf" (by decide), other "infinity" (by decide)⟩)]

theorem digits?_unsigned (n : Numeral) : digits? n.negative n.unsigned = some n.value := by
  have stops := n.tail_stops stops_nil
  rw [List.append_nil] at stops
  obtain ⟨whole, tail⟩ := takeWhile_digits n.whole_digits stops
  have some_whole : n.whole.isEmpty = false := by simp [n.some_whole]
  rw [digits?, unsigned, whole, tail, Numeral.tail]
  by_cases point : n.fraction = []
  · simp [point, some_whole, exponent?, value]
  · have digits := takeWhile_digits n.fraction_digits fun c hc => (stops_nil c hc).1
    rw [List.append_nil] at digits
    simp [point, some_whole, digits, exponent?, value]

/-- A printed numeral is read as its value. -/
theorem read?_text (n : Numeral) : read? (Text.ofList n.text) = some n.value := by
  have clean := n.text_unblank
  simp only [read?, Text.toList_ofList, trim_self fun c hc => (clean c hc).1,
    withoutSeparators_self fun c hc => (clean c hc).2, Option.bind_eq_bind, Option.bind_some,
    splitSign_text, word?_unsigned, digits?_unsigned, Option.none_or]

end Numeral

end ReleaseGate
