import ReleaseGate.Json.Read
import ReleaseGate.Proofs.Json.Digits
import ReleaseGate.Proofs.Json.Strings
import ReleaseGate.Proofs.Value.WellFormed

/-!
The text of a value, in any layout whose separators are a mark and spaces, is cut into the lexemes
of the value: its marks, names, strings, words and numbers, in order.
-/

namespace ReleaseGate.Json

structure Layout.Plain (l : Layout) : Prop where
  item : ∃ n, l.item = CodePoint.char ',' :: List.replicate n (.char ' ')
  member : ∃ n, l.member = CodePoint.char ':' :: List.replicate n (.char ' ')

theorem spaced_plain : spaced.Plain := ⟨⟨1, rfl⟩, ⟨1, rfl⟩⟩

theorem compact_plain : compact.Plain := ⟨⟨0, rfl⟩, ⟨0, rfl⟩⟩

mutual

def lexemes : Value → List Token
  | .list [] => [.openList, .closeList]
  | .list (v :: vs) => .openList :: (lexemes v ++ itemLexemes vs ++ [.closeList])
  | .object [] => [.openObject, .closeObject]
  | .object ((k, v) :: ms) =>
      .openObject :: .scalar (.str k) :: .colon ::
        (lexemes v ++ memberLexemes ms ++ [.closeObject])
  | v => [.scalar v]

def itemLexemes : List Value → List Token
  | [] => []
  | v :: vs => .comma :: (lexemes v ++ itemLexemes vs)

def memberLexemes : List (Text × Value) → List Token
  | [] => []
  | (k, v) :: ms => .comma :: .scalar (.str k) :: .colon :: (lexemes v ++ memberLexemes ms)

end

theorem tokens?_nil : tokens? [] = some [] := by
  rw [tokens?]

theorem tokens?_space {c : CodePoint} (hc : isSpace c = true) (s : List CodePoint) :
    tokens? (c :: s) = tokens? s := by
  rw [tokens?, if_pos hc]

theorem tokens?_spaces (n : Nat) (s : List CodePoint) :
    tokens? (List.replicate n (.char ' ') ++ s) = tokens? s := by
  induction n with
  | zero => rfl
  | succ n ih => rw [List.replicate_succ, List.cons_append, tokens?_space (by decide), ih]

theorem tokens?_next {c : CodePoint} {s rest : List CodePoint} {t : Token} (hc : isSpace c = false)
    (next : nextToken (c :: s) = some (t, rest)) :
    tokens? (c :: s) = (tokens? rest).map (t :: ·) := by
  rw [tokens?, if_neg (by simp [hc])]
  split
  · rename_i h
    rw [next] at h
    cases h
  · rename_i h
    rw [next] at h
    injection h with h
    injection h with ht hrest
    rw [ht, hrest]

theorem tokens?_cons {c : CodePoint} {s rest : List CodePoint} {t : Token} {ts : List Token}
    (hc : isSpace c = false) (next : nextToken (c :: s) = some (t, rest))
    (hr : tokens? rest = some ts) : tokens? (c :: s) = some (t :: ts) := by
  rw [tokens?_next hc next, hr]
  rfl

/-- What may follow a number: nothing that could belong to it. -/
def Follows (s : List CodePoint) : Prop := ∀ c ∈ s.head?, isNumberChar c = false

theorem follows_cons {c : CodePoint} (hc : isNumberChar c = false) (s : List CodePoint) :
    Follows (c :: s) := by
  intro d hd
  rwa [← Option.some.inj hd]

/-- A written string is one lexeme, and reads as itself. -/
theorem nextToken_string (s rest : List CodePoint) :
    nextToken (writeString s ++ rest) = some (.scalar (.str (Text.ofList s)), rest) := by
  simp [writeString, nextToken, readString_escaped]

theorem tokens?_string (s : Text) {rest : List CodePoint} {ts : List Token}
    (hr : tokens? rest = some ts) :
    tokens? (writeString s.toList ++ rest) = some (.scalar (.str s) :: ts) := by
  have next := nextToken_string s.toList rest
  rw [Text.ofList_toList] at next
  exact tokens?_cons (by decide) next hr

theorem isNumberChar_digit {c : Char} (h : isDigit c = true) : isNumberChar c = true := by
  simp [isNumberChar, h]

theorem not_isSpace {c : CodePoint} (h : isNumberChar c = true) : isSpace c = false := by
  cases hc : isSpace c with
  | false => rfl
  | true =>
      simp only [isSpace, Bool.or_eq_true, beq_iff_eq] at hc
      obtain ((rfl | rfl) | rfl) | rfl := hc <;> exact absurd h (by decide)

theorem numberText_chars (n : NumberText) : ∀ c ∈ n.text, isNumberChar (.char c) = true := by
  obtain ⟨negative, whole, fraction, exponent, wholeDigits, -, -, fractionDigits,
    exponentDigits⟩ := n
  intro c hc
  simp only [NumberText.text, List.mem_append] at hc
  obtain h | h | h | h := hc
  · cases negative with
    | true =>
        rw [List.mem_singleton.1 h]
        decide
    | false => cases h
  · exact isNumberChar_digit (wholeDigits c h)
  · unfold NumberText.pointed at h
    split at h
    · cases h
    · obtain rfl | h := List.mem_cons.1 h
      · decide
      · exact isNumberChar_digit (fractionDigits c h)
  · cases exponent with
    | none => cases h
    | some e =>
        obtain ⟨sign, ds⟩ := e
        simp only [NumberText.power, List.mem_cons] at h
        obtain rfl | rfl | h := h
        · decide
        · cases sign <;> decide
        · exact isNumberChar_digit ((exponentDigits _ rfl).2 c h)

theorem filterMap_char (s : List Char) : (s.map .char).filterMap CodePoint.char? = s := by
  rw [List.filterMap_map]
  exact List.filterMap_some

/-- No word begins like a number. -/
theorem readWord_number (negative : Bool) {d : Char} (hd : isDigit d = true) (s : List CodePoint) :
    readWord ((NumberText.sign negative).map .char ++ .char d :: s) = none := by
  have ne {c : Char} (hc : isDigit c = false) : c ≠ d := by
    rintro rfl
    rw [hd] at hc
    cases hc
  have n : 'n' ≠ d := ne (by decide)
  have t : 't' ≠ d := ne (by decide)
  have f : 'f' ≠ d := ne (by decide)
  have upperN : 'N' ≠ d := ne (by decide)
  have upperI : 'I' ≠ d := ne (by decide)
  have minus : '-' ≠ d := ne (by decide)
  cases negative <;>
    simp [readWord, words, NumberText.sign, List.isPrefixOf, n, t, f, upperN, upperI, minus]

/-- The characters of a number are one lexeme up to the first that is none of them. -/
theorem nextToken_number {c : Char} {s : List Char} {rest : List CodePoint}
    (chars : ∀ d ∈ c :: s, isNumberChar (.char d) = true)
    (word : readWord (.char c :: (s.map .char ++ rest)) = none) (hr : Follows rest) :
    nextToken (.char c :: (s.map .char ++ rest)) =
      (readNumber (c :: s)).map fun v => (.scalar v, rest) := by
  have parts := List.forall_mem_cons.1 chars
  have tail : ∀ d ∈ s.map CodePoint.char, isNumberChar d = true := List.forall_mem_map.2 parts.2
  have taken : (s.map CodePoint.char ++ rest).takeWhile isNumberChar = s.map .char := by
    rw [List.takeWhile_append_of_pos tail]
    cases rest with
    | nil => simp
    | cons d rest => simp [hr d rfl]
  have dropped : (s.map CodePoint.char ++ rest).dropWhile isNumberChar = rest := by
    rw [List.dropWhile_append_of_pos tail]
    cases rest with
    | nil => rfl
    | cons d rest => simp [hr d rfl]
  have lexeme : (.char c :: s.map .char).filterMap CodePoint.char? = c :: s :=
    filterMap_char (c :: s)
  unfold nextToken
  split
  case h_9 h =>
    injection h with hc hs
    subst hc hs
    simp only [word, parts.1, if_true, taken, dropped, lexeme]
  case h_1 h => cases h
  all_goals
    rename_i h
    injection h with hc
    cases hc
    exact absurd parts.1 (by decide)

theorem tokens?_number (n : NumberText) {rest : List CodePoint} {ts : List Token}
    (hr : Follows rest)
    (ht : tokens? rest = some ts) :
    tokens? (n.text.map .char ++ rest) = some (.scalar n.value :: ts) := by
  have chars := numberText_chars n
  have number := readNumber_text n
  obtain ⟨d, ds, hd⟩ := List.exists_cons_of_ne_nil n.whole_some
  have digit : isDigit d = true := n.whole_digits d (hd ▸ List.mem_cons_self ..)
  have shape : n.text = NumberText.sign n.negative ++
      d :: (ds ++ (NumberText.pointed n.fraction ++ NumberText.power n.exponent)) := by
    rw [NumberText.text, hd, List.cons_append]
  have word : readWord (n.text.map .char ++ rest) = none := by
    rw [shape, List.map_append, List.append_assoc]
    exact readWord_number n.negative digit _
  cases text : n.text with
  | nil =>
      rw [shape] at text
      simp at text
  | cons c s =>
      rw [text] at chars number word
      have space : isSpace (.char c) = false := not_isSpace (chars c (List.mem_cons_self ..))
      have next : nextToken (.char c :: (s.map .char ++ rest)) = some (.scalar n.value, rest) := by
        rw [nextToken_number chars word hr, number]
        rfl
      exact tokens?_cons space next ht

theorem tokens?_float {l : Layout} (x : Double) {rest : List CodePoint} {ts : List Token}
    (hr : Follows rest) (ht : tokens? rest = some ts) :
    tokens? (write l (.float x) ++ rest) = some (.scalar (.float x) :: ts) := by
  unfold write
  cases x with
  | nan => exact tokens?_cons (by decide) rfl ht
  | infinite negative => cases negative <;> exact tokens?_cons (by decide) rfl ht
  | finite negative q fits =>
      obtain ⟨n, text, value⟩ := double_text negative fits numberWords
      rw [← text, ← value]
      exact tokens?_number n hr ht

/-- A value whose text is cut into its lexemes, before anything that a number can stand before. -/
def Cut (l : Layout) (v : Value) : Prop :=
  ∀ {rest : List CodePoint} {ts : List Token}, Follows rest → tokens? rest = some ts →
    tokens? (write l v ++ rest) = some (lexemes v ++ ts)

section

variable {l : Layout} (hl : l.Plain)
include hl

theorem follows_items (vs : List Value) {rest : List CodePoint} (hr : Follows rest) :
    Follows (writeItems l vs ++ rest) := by
  cases vs with
  | nil => exact hr
  | cons v vs =>
      obtain ⟨n, hi⟩ := hl.item
      simp only [writeItems, hi, List.cons_append]
      exact follows_cons (by decide) _

theorem follows_members (ms : List (Text × Value)) {rest : List CodePoint} (hr : Follows rest) :
    Follows (writeMembers l ms ++ rest) := by
  cases ms with
  | nil => exact hr
  | cons m ms =>
      obtain ⟨n, hi⟩ := hl.item
      simp only [writeMembers, hi, List.cons_append]
      exact follows_cons (by decide) _

theorem tokens?_item {s : List CodePoint} {ts : List Token} (hs : tokens? s = some ts) :
    tokens? (l.item ++ s) = some (.comma :: ts) := by
  obtain ⟨n, hi⟩ := hl.item
  rw [hi]
  exact tokens?_cons (by decide) rfl ((tokens?_spaces n s).trans hs)

theorem tokens?_member {s : List CodePoint} {ts : List Token} (hs : tokens? s = some ts) :
    tokens? (l.member ++ s) = some (.colon :: ts) := by
  obtain ⟨n, hm⟩ := hl.member
  rw [hm]
  exact tokens?_cons (by decide) rfl ((tokens?_spaces n s).trans hs)

theorem tokens?_items {vs : List Value} (cut : ∀ v ∈ vs, Cut l v) {rest : List CodePoint}
    {ts : List Token} (hr : Follows rest) (ht : tokens? rest = some ts) :
    tokens? (writeItems l vs ++ rest) = some (itemLexemes vs ++ ts) := by
  induction vs with
  | nil => exact ht
  | cons v vs ih =>
      have parts := List.forall_mem_cons.1 cut
      have tail := parts.1 (follows_items hl vs hr) (ih parts.2)
      simp only [writeItems, itemLexemes, List.append_assoc, List.cons_append]
      exact tokens?_item hl tail

theorem tokens?_members {ms : List (Text × Value)} (cut : ∀ m ∈ ms, Cut l m.2)
    {rest : List CodePoint} {ts : List Token} (hr : Follows rest) (ht : tokens? rest = some ts) :
    tokens? (writeMembers l ms ++ rest) = some (memberLexemes ms ++ ts) := by
  induction ms with
  | nil => exact ht
  | cons m ms ih =>
      obtain ⟨k, v⟩ := m
      have parts := List.forall_mem_cons.1 cut
      have tail := parts.1 (follows_members hl ms hr) (ih parts.2)
      simp only [writeMembers, memberLexemes, List.append_assoc, List.cons_append]
      exact tokens?_item hl (tokens?_string k (tokens?_member hl tail))

/-- A written value is cut into its own tokens and nothing of what follows. -/
theorem tokens?_write (v : Value) : Cut l v := by
  induction v with
  | null => exact fun _ ht => tokens?_cons (by decide) rfl ht
  | bool b => cases b <;> exact fun _ ht => tokens?_cons (by decide) rfl ht
  | int i =>
      intro rest ts hr ht
      have number := tokens?_number (integerText i) hr ht
      rwa [integerText_text, integerText_value] at number
  | float x => exact fun hr ht => tokens?_float x hr ht
  | str s => exact fun _ ht => tokens?_string s ht
  | list vs ih =>
      intro rest ts hr ht
      have close : tokens? (']' :: rest) = some (.closeList :: ts) :=
        tokens?_cons (by decide) rfl ht
      have before : Follows (']' :: rest) := follows_cons (by decide) rest
      cases vs with
      | nil => exact tokens?_cons (by decide) rfl close
      | cons v vs =>
          have parts := List.forall_mem_cons.1 ih
          have tail := parts.1 (follows_items hl vs before) (tokens?_items hl parts.2 before close)
          simp only [write, lexemes, List.append_assoc, List.cons_append, List.nil_append]
          exact tokens?_cons (by decide) rfl tail
  | object ms ih =>
      intro rest ts hr ht
      have close : tokens? ('\x7d' :: rest) = some (.closeObject :: ts) :=
        tokens?_cons (by decide) rfl ht
      have before : Follows ('\x7d' :: rest) := follows_cons (by decide) rest
      cases ms with
      | nil => exact tokens?_cons (by decide) rfl close
      | cons m ms =>
          obtain ⟨k, v⟩ := m
          have parts := List.forall_mem_cons.1 ih
          have tail :=
            parts.1 (follows_members hl ms before) (tokens?_members hl parts.2 before close)
          simp only [write, lexemes, List.append_assoc, List.cons_append, List.nil_append]
          exact tokens?_cons (by decide) rfl (tokens?_string k (tokens?_member hl tail))

end

end ReleaseGate.Json
