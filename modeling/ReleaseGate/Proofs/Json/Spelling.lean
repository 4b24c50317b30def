import ReleaseGate.Json.Text

/-!
The ways to spell a string in JSON text. A character stands for itself, or is escaped by a letter,
by its code in four hexadecimal digits of either case, or by the codes of a surrogate pair. Whatever
follows the closing quote, a spelling is read as the string that it spells.
-/

namespace ReleaseGate.Json

def letterEscapes : List (CodePoint × CodePoint) :=
  [('"', '"'), ('\\', '\\'), ('/', '/'), ('b', '\x08'), ('f', '\x0c'), ('n', '\n'), ('r', '\r'),
   ('t', '\t')]

def HexDigit (n : Nat) (c : CodePoint) : Prop :=
  n < 16 ∧ (c = Nat.digitChar n ∨ c = (Nat.digitChar n).toUpper)

inductive HexUnit (n : Nat) : List CodePoint → Prop
  | digits {a b c d : CodePoint} : HexDigit (n / 4096) a → HexDigit (n / 256 % 16) b →
      HexDigit (n / 16 % 16) c → HexDigit (n % 16) d → HexUnit n [a, b, c, d]

/-- The spellings of a code point. Half of a surrogate pair by itself only stands for itself here:
its escape is read as part of a pair where the other half follows. -/
inductive Spelling : CodePoint → List CodePoint → Prop
  | plain {c : CodePoint} : c ≠ '"' → c ≠ '\\' → ¬ c < ' ' → Spelling c [c]
  | letter {e c : CodePoint} : (e, c) ∈ letterEscapes → Spelling c ['\\', e]
  | unit {c : Char} {ds : List CodePoint} : HexUnit c.toNat ds → Spelling c ('\\' :: 'u' :: ds)
  | pair {c : Char} {high low : Nat} {ds es : List CodePoint} : isHighUnit high = true →
      isLowUnit low = true → c.toNat = 0x10000 + (high - 0xD800) * 0x400 + (low - 0xDC00) →
        HexUnit high ds → HexUnit low es →
          Spelling c ('\\' :: 'u' :: (ds ++ .char '\\' :: .char 'u' :: es))

inductive Spells : List CodePoint → List CodePoint → Prop
  | nil : Spells [] []
  | cons {c : CodePoint} {s t u : List CodePoint} : Spelling c t → Spells s u →
    Spells (c :: s) (t ++ u)

theorem hexValue?_digit {n : Nat} {c : CodePoint} (h : HexDigit n c) : hexValue? c = some n := by
  have values : ∀ n < 16, hexValue? (Nat.digitChar n) = some n ∧
      hexValue? (Nat.digitChar n).toUpper = some n := by decide
  obtain ⟨small, rfl | rfl⟩ := h
  · exact (values n small).1
  · exact (values n small).2

theorem codeUnit?_digits {n : Nat} {a b c d : CodePoint} (h : HexUnit n [a, b, c, d]) :
    codeUnit? a b c d = some n := by
  cases h with
  | digits ha hb hc hd =>
      simp only [codeUnit?, hexValue?_digit ha, hexValue?_digit hb, hexValue?_digit hc,
        hexValue?_digit hd]
      exact congrArg some (by omega)

/-- No character is the first half of a surrogate pair. -/
theorem isHighUnit_char (c : Char) : isHighUnit c.toNat = false := by
  have valid : c.toNat < 0xD800 ∨ 0xDFFF < c.toNat ∧ c.toNat < 0x110000 := c.valid
  simp [isHighUnit]
  omega

theorem shortEscape?_letter {e c : CodePoint} (h : (e, c) ∈ letterEscapes) :
    e ≠ 'u' ∧ shortEscape? e = some c := by
  have table : ∀ p ∈ letterEscapes, p.1 ≠ 'u' ∧ shortEscape? p.1 = some p.2 := by decide
  exact table _ h

theorem readString_short {e c : CodePoint} (he : e ≠ 'u') (hc : shortEscape? e = some c)
    (rest : List CodePoint) : readString ('\\' :: e :: rest) = (readString rest).push c := by
  rw [readString, hc]
  · exact fun _ _ _ _ _ h _ => he h
  · exact he

theorem readString_plain {c : CodePoint} (quote : c ≠ '"') (backslash : c ≠ '\\') (hc : ¬ c < ' ')
    (rest : List CodePoint) : readString (c :: rest) = (readString rest).push c := by
  rw [readString, if_neg hc]
  · exact quote
  · exact fun _ _ _ _ _ h _ => backslash h
  · exact fun _ h _ => backslash h
  · exact fun _ _ h _ => backslash h
  · exact fun h _ => backslash h

/-- What follows a code unit is not the escape of the other half of a pair with it. -/
def Alone (n : Nat) (rest : List CodePoint) : Prop :=
  isHighUnit n = true → ∀ a b c d later,
    rest = .char '\\' :: .char 'u' :: a :: b :: c :: d :: later →
    ∃ low, codeUnit? a b c d = some low ∧ isLowUnit low = false

/-- An escaped surrogate without its partner is read as a character of its own. -/
theorem readString_alone {a b c d : CodePoint} {n : Nat} {rest : List CodePoint}
    (unit : codeUnit? a b c d = some n) (alone : Alone n rest) :
    readString ('\\' :: 'u' :: a :: b :: c :: d :: rest) = (readString rest).push (.ofNat n) := by
  rw [readString, unit]
  dsimp only
  split
  · rename_i high
    split
    · obtain ⟨low, second, other⟩ := alone high _ _ _ _ _ rfl
      simp [second, other]
    · rfl
  · rfl

/-- The escapes of both halves of a pair, one behind the other, are read as one character. -/
theorem readString_paired {a b c d e f g h : CodePoint} {high low : Nat}
    (first : codeUnit? a b c d = some high) (paired : isHighUnit high = true)
    (second : codeUnit? e f g h = some low) (ending : isLowUnit low = true)
    (rest : List CodePoint) :
    readString ('\\' :: 'u' :: a :: b :: c :: d :: '\\' :: 'u' :: e :: f :: g :: h :: rest) =
      (readString rest).push (pairedChar high low) := by
  rw [readString]
  simp [first, paired, second, ending]

/-- Four hexadecimal digits spell the character with that number. -/
theorem readString_unit {c : Char} {ds : List CodePoint} (h : HexUnit c.toNat ds)
    (rest : List CodePoint) :
    readString ('\\' :: 'u' :: (ds ++ rest)) = (readString rest).push c := by
  obtain ⟨ha, hb, hc, hd⟩ := h
  have unit := codeUnit?_digits (.digits ha hb hc hd)
  have alone : Alone c.toNat rest := fun paired => by simp [isHighUnit_char] at paired
  have same : CodePoint.ofNat c.toNat = c := CodePoint.ofNat_toNat c
  simp only [List.cons_append, List.nil_append]
  rw [readString_alone unit alone, same]

/-- Two escaped units of a surrogate pair spell one character. -/
theorem readString_pair {c : Char} {high low : Nat} {ds es : List CodePoint}
    (first : isHighUnit high = true) (second : isLowUnit low = true)
    (code : c.toNat = 0x10000 + (high - 0xD800) * 0x400 + (low - 0xDC00)) (hd : HexUnit high ds)
    (he : HexUnit low es) (rest : List CodePoint) :
    readString ('\\' :: 'u' :: (ds ++ .char '\\' :: .char 'u' :: es ++ rest)) =
      (readString rest).push c := by
  have paired : pairedChar high low = c := by rw [pairedChar, ← code, Char.ofNat_toNat]
  obtain ⟨h₁, h₂, h₃, h₄⟩ := hd
  obtain ⟨l₁, l₂, l₃, l₄⟩ := he
  have highUnit := codeUnit?_digits (.digits h₁ h₂ h₃ h₄)
  have lowUnit := codeUnit?_digits (.digits l₁ l₂ l₃ l₄)
  simp only [List.cons_append, List.nil_append]
  rw [readString_paired highUnit first lowUnit second, paired]

theorem readString_spelling {c : CodePoint} {t : List CodePoint} (h : Spelling c t)
    (rest : List CodePoint) :
    readString (t ++ rest) = (readString rest).push c := by
  cases h with
  | plain quote backslash control => exact readString_plain quote backslash control rest
  | letter listed =>
      obtain ⟨notUnit, short⟩ := shortEscape?_letter listed
      exact readString_short notUnit short rest
  | unit digits => exact readString_unit digits rest
  | pair first second code hd he => exact readString_pair first second code hd he rest

/-- A spelled string is read as the text it spells. -/
theorem readString_spells {s t : List CodePoint} (h : Spells s t) (rest : List CodePoint) :
    readString (t ++ .char '"' :: rest) = .ok (s, rest) := by
  induction h with
  | nil => rw [List.nil_append, readString]
  | cons head _ ih =>
      rw [List.append_assoc, readString_spelling head, ih]
      rfl

end ReleaseGate.Json
