import ReleaseGate.Json.Write
import ReleaseGate.Proofs.Json.Spelling

/-!
Strings in JSON text. What is written for a string, with all of Unicode or with ASCII alone, spells
it; so it reads back whatever follows the closing quote. It holds no control character.
-/

namespace ReleaseGate.Json

theorem hexDigits_succ {w : Nat} (some : 0 < w) (n : Nat) :
    Text.hexDigits (w + 1) n = Text.hexDigits w (n / 16) ++ [Nat.digitChar (n % 16)] := by
  by_cases small : n < 16
  · have zeros : List.replicate w '0' = List.replicate (w - 1) '0' ++ ['0'] := by
      rw [← List.replicate_succ', Nat.sub_add_cancel some]
    simp [Text.hexDigits, Nat.toDigits_of_lt_base small, Nat.div_eq_of_lt small,
      Nat.mod_eq_of_lt small, zeros]
  · have split := Nat.toDigits_of_base_le (b := 16) (n := n) (by decide) (by omega)
    simp [Text.hexDigits, split, Nat.add_sub_add_right]

theorem hexDigit_digitChar {n : Nat} (small : n < 16) : HexDigit n (Nat.digitChar n) :=
  ⟨small, .inl rfl⟩

theorem hexUnit_hexDigits {n : Nat} (small : n < 0x10000) :
    HexUnit n ((Text.hexDigits 4 n).map .char) := by
  have first : n / 16 / 16 / 16 < 16 := by omega
  have last : Text.hexDigits 1 (n / 16 / 16 / 16) = [Nat.digitChar (n / 16 / 16 / 16)] := by
    simp [Text.hexDigits, Nat.toDigits_of_lt_base first]
  rw [hexDigits_succ (by decide), hexDigits_succ (by decide), hexDigits_succ (by decide), last]
  simp only [Nat.div_div_eq_div_mul, List.cons_append, List.nil_append, List.map_cons, List.map_nil]
  exact .digits (hexDigit_digitChar (by omega)) (hexDigit_digitChar (by omega))
    (hexDigit_digitChar (by omega)) (hexDigit_digitChar (by omega))

/-- The three ways to write a code point: an escape of one letter, a spelled code, itself. -/
theorem escapedChar_cases (c : CodePoint) :
    (∃ e : CodePoint, escapedChar c = [.char '\\', e] ∧ ¬ e < ' ' ∧ (e, c) ∈ letterEscapes) ∨
    (c < ' ' ∧
      escapedChar c = .char '\\' :: .char 'u' :: (Text.hexDigits 4 c.toNat).map CodePoint.char) ∨
    (c ≠ '"' ∧ c ≠ '\\' ∧ ¬ c < ' ' ∧ escapedChar c = [c]) := by
  by_cases short : c = '"' ∨ c = '\\' ∨ c = '\n' ∨ c = '\r' ∨ c = '\t' ∨ c = '\x08' ∨ c = '\x0c'
  · refine Or.inl ?_
    rcases short with rfl | rfl | rfl | rfl | rfl | rfl | rfl <;>
      exact ⟨_, rfl, by decide, by decide⟩
  · simp only [not_or] at short
    by_cases control : c < ' ' <;> simp [escapedChar, short, control]

theorem escapedChar_spelling (c : CodePoint) : Spelling c (escapedChar c) := by
  obtain ⟨e, h, -, listed⟩ | ⟨hc, h⟩ | ⟨quote, backslash, hc, h⟩ := escapedChar_cases c <;> rw [h]
  · exact .letter listed
  · have small : c.toNat < 32 := hc
    cases c with
    | char c => exact .unit (hexUnit_hexDigits (Nat.lt_trans small (by decide)))
    | surrogate u => exact absurd small (by simp only [CodePoint.toNat]; omega)
  · exact .plain quote backslash hc

/-- The writer's escapes spell the text they escape. -/
theorem escaped_spells (s : List CodePoint) : Spells s (s.flatMap escapedChar) := by
  induction s with
  | nil => exact .nil
  | cons c s ih => exact .cons (escapedChar_spelling c) ih

/-- A character in ASCII text: what lies above the tilde is escaped, as a pair if it is too large
for one code. -/
def asciiChar (c : Char) : List CodePoint :=
  if c.toNat < 0x7F then escapedChar c
  else if c.toNat < 0x10000 then '\\' :: 'u' :: (Text.hexDigits 4 c.toNat).map .char
  else
    let n := c.toNat - 0x10000
    '\\' :: 'u' :: ((Text.hexDigits 4 (0xD800 + n / 0x400)).map .char ++
      .char '\\' :: .char 'u' :: (Text.hexDigits 4 (0xDC00 + n % 0x400)).map .char)

theorem asciiChar_spelling (c : Char) : Spelling c (asciiChar c) := by
  have valid : c.toNat < 0xD800 ∨ 0xDFFF < c.toNat ∧ c.toNat < 0x110000 := c.valid
  unfold asciiChar
  dsimp only
  split
  · exact escapedChar_spelling c
  · split
    · exact .unit (hexUnit_hexDigits ‹_›)
    · refine .pair ?_ ?_ ?_ (hexUnit_hexDigits (by omega)) (hexUnit_hexDigits (by omega))
      · simp [isHighUnit]
        omega
      · simp [isLowUnit]
        omega
      · omega

theorem ascii_spells (s : List Char) : Spells (s.map .char) (s.flatMap asciiChar) := by
  induction s with
  | nil => exact .nil
  | cons c s ih => exact .cons (asciiChar_spelling c) ih

theorem readString_escaped (s rest : List CodePoint) :
    readString (s.flatMap escapedChar ++ .char '"' :: rest) = .ok (s, rest) :=
  readString_spells (escaped_spells s) rest

theorem hexDigit_printable {n : Nat} {c : CodePoint} (h : HexDigit n c) : ¬ c < ' ' := by
  have digits : ∀ n < 16, ¬ CodePoint.char (Nat.digitChar n) < ' ' ∧
      ¬ CodePoint.char (Nat.digitChar n).toUpper < ' ' := by decide
  obtain ⟨small, rfl | rfl⟩ := h
  · exact (digits n small).1
  · exact (digits n small).2

theorem hexUnit_printable {n : Nat} {ds : List CodePoint} (h : HexUnit n ds) :
    ∀ d ∈ ds, ¬ d < ' ' := by
  cases h with
  | digits ha hb hc hd =>
      simp only [List.forall_mem_cons]
      exact ⟨hexDigit_printable ha, hexDigit_printable hb, hexDigit_printable hc,
        hexDigit_printable hd, List.forall_mem_nil _⟩

theorem escapedChar_printable {c d : CodePoint} (h : d ∈ escapedChar c) : ¬ d < ' ' := by
  obtain ⟨e, hw, he, -⟩ | ⟨hc, hw⟩ | ⟨-, -, hc, hw⟩ := escapedChar_cases c <;> rw [hw] at h
  · simp only [List.mem_cons, List.not_mem_nil, or_false] at h
    obtain rfl | rfl := h
    · decide
    · exact he
  · simp only [List.mem_cons] at h
    obtain rfl | rfl | h := h
    · decide
    · decide
    · have small : c.toNat < 32 := hc
      exact hexUnit_printable (hexUnit_hexDigits (Nat.lt_trans small (by decide))) d h
  · rw [List.mem_singleton.1 h]
    exact hc

theorem writeString_printable {s : List CodePoint} {c : CodePoint} (h : c ∈ writeString s) :
    ¬ c < ' ' := by
  simp only [writeString, List.mem_cons, List.mem_append, List.mem_flatMap, List.not_mem_nil,
    or_false] at h
  obtain rfl | ⟨d, -, hd⟩ | rfl := h
  · decide
  · exact escapedChar_printable hd
  · decide

end ReleaseGate.Json
