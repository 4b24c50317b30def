import ReleaseGate.Proofs.Condition.Grammar
import ReleaseGate.Proofs.Json.Spelling
import ReleaseGate.Proofs.Number.Numerals

/-!
The lexemes of conditions, one class after another: what each is read as at the head of a text, and
what must follow it. Names, keywords and numerals need a break behind them, the operators of one
character anything but an equals sign, and all others nothing.
-/

namespace ReleaseGate.Condition

/-- Whether a text neither goes on with a word nor with a numeral. -/
def Breaks (rest : List CodePoint) : Prop :=
  ∀ c ∈ rest.head?, isWordChar c = false ∧ Text.isDecimalDigit c = false

theorem Breaks.word {rest : List CodePoint} (h : Breaks rest) : continuesWord rest = false := by
  cases rest with
  | nil => rfl
  | cons c _ => exact (h c rfl).1

theorem Breaks.stops {rest : List CodePoint} (h : Breaks rest) : Numeral.Stops rest := by
  refine fun c hc => ⟨(h c hc).2, ?_⟩
  rintro rfl
  cases (h _ hc).1

theorem isWordChar_toNat {c : CodePoint} (h : isWordChar c = true) : 46 ≤ c.toNat ∧
    c.toNat ≤ 122 := by
  simp only [isWordChar, Bool.or_eq_true, Bool.and_eq_true, decide_eq_true_eq, beq_iff_eq] at h
  obtain (start | digit) | rfl := h
  · have := isWordStart_toNat start
    omega
  · exact ⟨Nat.le_trans (by decide) digit.1, Nat.le_trans digit.2 (by decide)⟩
  · decide

theorem breaks_of_isBlank {c : CodePoint} (h : Text.isBlank c = true) :
    isWordChar c = false ∧ Text.isDecimalDigit c = false := by
  constructor
  · refine Bool.eq_false_iff.2 fun word => ?_
    have := Text.isBlank_toNat h
    have := isWordChar_toNat word
    omega
  · refine Bool.eq_false_iff.2 fun digit => ?_
    rw [Text.not_isBlank_of_isDecimalDigit digit] at h
    cases h

theorem not_isBlank_of_isWordStart {c : CodePoint} (h : isWordStart c = true) :
    Text.isBlank c = false := by
  refine Bool.eq_false_iff.2 fun blank => ?_
  rw [(plain_of_isBlank blank).2] at h
  cases h

theorem not_isDecimalDigit_of_isWordStart {c : CodePoint} (h : isWordStart c = true) :
    Text.isDecimalDigit c = false := by
  refine Bool.eq_false_iff.2 fun digit => ?_
  rw [(plain_of_isDecimalDigit digit).2] at h
  cases h

section

variable {s rest : List CodePoint} {k : Class} (position : Nat)

/-- The tokens of a text are the one of its first lexeme, if this is one, and those of the rest. -/
theorem tokensFrom_lexeme (present : s ≠ []) (head : classify? (s ++ rest) = some (k, s.length))
    {m : Option Meaning} (means : meaning k s = .ok m) :
    tokensFrom position (s ++ rest) = (tokensFrom (position + s.length) rest).map fun ts =>
      match m with
      | none => ts
      | some m => ⟨m, Text.ofList s, position⟩ :: ts := by
  obtain ⟨c, l, rfl⟩ := List.exists_cons_of_ne_nil present
  have lexeme : (c :: (l ++ rest)).take (c :: l).length = c :: l := List.take_left
  have later : (l ++ rest).drop ((c :: l).length - 1) = rest := List.drop_left
  rw [List.cons_append] at head ⊢
  rw [tokensFrom, head]
  simp only [lexeme, means, later]
  cases m <;> rfl

/-- A lexeme at the head of the text becomes the first token, and the rest is cut by itself. -/
theorem tokensFrom_token (present : s ≠ []) (head : classify? (s ++ rest) = some (k, s.length))
    {m : Meaning} (means : meaning k s = .ok (some m)) :
    tokensFrom position (s ++ rest) =
      (tokensFrom (position + s.length) rest).map (⟨m, Text.ofList s, position⟩ :: ·) :=
  tokensFrom_lexeme position present head means

theorem classify?_blank {c : CodePoint} (blank : Text.isBlank c = true) (s : List CodePoint) :
    classify? (c :: s) = some (.blank, (s.takeWhile Text.isBlank).length + 1) := by
  simp [classify?, blank]

/-- A run of blanks is one lexeme. -/
theorem tokensFrom_run {c : CodePoint} (blank : Text.isBlank c = true) (s : List CodePoint) :
    tokensFrom position (c :: s) =
      tokensFrom (position + ((s.takeWhile Text.isBlank).length + 1))
        (s.dropWhile Text.isBlank) := by
  rw [tokensFrom, classify?_blank blank]
  simp only [meaning, Nat.add_sub_cancel, drop_takeWhile_length]
  cases tokensFrom _ (s.dropWhile Text.isBlank) <;> rfl

theorem tokensFrom_blank {c : CodePoint} (blank : Text.isBlank c = true) (s : List CodePoint) :
    tokensFrom position (c :: s) = tokensFrom (position + 1) s := by
  rw [tokensFrom_run position blank]
  cases s with
  | nil => rfl
  | cons d s =>
      cases next : Text.isBlank d with
      | true =>
          rw [tokensFrom_run (position + 1) next]
          simp [next, Nat.add_assoc, Nat.add_comm 1]
      | false => simp [next]

/-- Blanks only move the positions. -/
theorem tokensFrom_blanks {blanks : List CodePoint} (blank : ∀ c ∈ blanks, Text.isBlank c = true)
    (s : List CodePoint) :
    tokensFrom position (blanks ++ s) = tokensFrom (position + blanks.length) s := by
  induction blanks generalizing position with
  | nil => rfl
  | cons c l ih =>
      rw [List.cons_append, tokensFrom_blank position (blank c List.mem_cons_self),
        ih (position + 1) fun c hc => blank c (List.mem_cons_of_mem _ hc), List.length_cons,
        Nat.add_assoc, Nat.add_comm 1]

theorem operatorAt?_symbol_append (op : Operator) (free : ∀ c ∈ rest.head?, c ≠ '=') :
    operatorAt? (op.symbol.toList ++ rest) = some (op, op.symbol.toList.length) := by
  cases op with
  | equal | notEqual | atLeast | atMost => rfl
  | greater | less =>
      cases rest with
      | nil => rfl
      | cons c rest => simp [Operator.symbol, operatorAt?, free c rfl]

theorem tokensFrom_operator (op : Operator) (free : ∀ c ∈ rest.head?, c ≠ '=') :
    tokensFrom position (op.symbol.toList ++ rest) =
      (tokensFrom (position + op.symbol.toList.length) rest).map
        (⟨.comparison op, op.symbol, position⟩ :: ·) := by
  have head : classify? (op.symbol.toList ++ rest) =
      some (.comparison op, op.symbol.toList.length) := by
    have unblank : ((op.symbol.toList ++ rest).takeWhile Text.isBlank).length = 0 := by
      cases op <;> rfl
    simp [classify?, unblank, operatorAt?_symbol_append op free]
  have present : op.symbol.toList ≠ [] := by cases op <;> decide
  rw [tokensFrom_token position present head rfl, Text.ofList_toList]

theorem tokensFrom_connective (link : Connective) (rest : List CodePoint) :
    tokensFrom position (link.symbol.toList ++ rest) =
      (tokensFrom (position + link.symbol.toList.length) rest).map
        (⟨.connective link, link.symbol, position⟩ :: ·) := by
  have head : classify? (link.symbol.toList ++ rest) =
      some (.connective link, link.symbol.toList.length) := by
    cases link <;> rfl
  have present : link.symbol.toList ≠ [] := by cases link <;> decide
  rw [tokensFrom_token position present head rfl, Text.ofList_toList]

theorem operatorAt?_of_ne {c : CodePoint} (h : c ≠ '=' ∧ c ≠ '!' ∧ c ≠ '>' ∧ c ≠ '<')
    (s : List CodePoint) : operatorAt? (c :: s) = none := by
  unfold operatorAt?
  split <;> simp_all

theorem connectiveAt?_of_ne {c : CodePoint} (h : c ≠ '&' ∧ c ≠ '|') (s : List CodePoint) :
    connectiveAt? (c :: s) = none := by
  unfold connectiveAt?
  split <;> simp_all

theorem booleanAt?_of_ne {c : CodePoint} (h : c ≠ 't' ∧ c ≠ 'f') (s : List CodePoint) :
    booleanAt? (c :: s) = none := by
  unfold booleanAt?
  split <;> simp_all

theorem unsignedLength?_of_not_digit {c : CodePoint} (h : Text.isDecimalDigit c = false)
    (s : List CodePoint) : unsignedLength? (c :: s) = none := by
  simp [unsignedLength?, h]

theorem numberAt?_of_ne {c : CodePoint} (minus : c ≠ '-') (s : List CodePoint) :
    numberAt? (c :: s) = unsignedLength? (c :: s) := by
  unfold numberAt?
  split
  · rename_i same
    cases same
    exact absurd rfl minus
  · rfl

/-- A name: a word that is no keyword. -/
structure IsName (name : List CodePoint) : Prop where
  start : ∀ c ∈ name.head?, isWordStart c = true
  word : ∀ c ∈ name, isWordChar c = true
  other : isKeyword name = false
  present : name ≠ []

theorem isName_identifier (s : Signal) : IsName s.identifier.toList := by
  have start : (s.identifier.toList.head?.all isWordStart) = true := by cases s <;> decide
  have word : (s.identifier.toList.all isWordChar) = true := by cases s <;> decide
  exact ⟨(Option.all_eq_true _ _).1 start, List.all_eq_true.1 word, by cases s <;> decide,
    by cases s <;> decide⟩

theorem identifierAt?_name {name : List CodePoint} (h : IsName name) (breaks : Breaks rest) :
    identifierAt? (name ++ rest) = some name.length := by
  obtain ⟨c, l, rfl⟩ := List.exists_cons_of_ne_nil h.present
  have word := identifierAt?_append (h.start c rfl)
    (fun a ha => h.word a (List.mem_cons_of_mem _ ha)) rest
  rw [List.cons_append, word, continuesWord_false_iff.1 breaks.word, List.length_cons,
    Nat.add_zero, Nat.add_comm]

theorem booleanAt?_name {name : List CodePoint} (h : IsName name) (breaks : Breaks rest) :
    booleanAt? (name ++ rest) = none := by
  refine Option.eq_none_iff_forall_ne_some.2 fun (b, n) boolean => ?_
  obtain ⟨-, word, keyword⟩ := booleanAt?_word boolean
  rw [identifierAt?_name h breaks] at word
  cases word
  rw [List.take_left, h.other] at keyword
  cases keyword

/-- A name is an identifier wherever something other than a word character follows. -/
theorem classify?_name {name : List CodePoint} (h : IsName name) (breaks : Breaks rest) :
    classify? (name ++ rest) = some (.identifier, name.length) := by
  have boolean := booleanAt?_name h breaks
  have word := identifierAt?_name h breaks
  obtain ⟨c, l, rfl⟩ := List.exists_cons_of_ne_nil h.present
  have start := h.start c rfl
  have place := isWordStart_toNat start
  have apart : ∀ d : CodePoint, isWordStart d = false → c ≠ d := by
    rintro _ other rfl
    rw [start] at other
    cases other
  have number : numberAt? (c :: (l ++ rest)) = none := by
    rw [numberAt?_of_ne (apart '-' (by decide)),
      unsignedLength?_of_not_digit (not_isDecimalDigit_of_isWordStart start)]
  have operator := operatorAt?_of_ne ⟨apart '=' (by decide), apart '!' (by decide),
    apart '>' (by decide), apart '<' (by decide)⟩ (l ++ rest)
  have connective := connectiveAt?_of_ne ⟨apart '&' (by decide), apart '|' (by decide)⟩ (l ++ rest)
  have string := stringAt?_of_ne (apart '"' (by decide)) (l ++ rest)
  rw [List.cons_append] at boolean word ⊢
  simp [classify?, not_isBlank_of_isWordStart start, operator, connective, string, boolean, number,
    word]

theorem tokensFrom_name {name : List CodePoint} (h : IsName name) (breaks : Breaks rest) :
    tokensFrom position (name ++ rest) = (tokensFrom (position + name.length) rest).map
      (⟨.identifier, Text.ofList name, position⟩ :: ·) :=
  tokensFrom_token position h.present (classify?_name h breaks) rfl

def keyword : Bool → List CodePoint
  | true => Text.toList "true"
  | false => Text.toList "false"

theorem classify?_keyword (b : Bool) (breaks : Breaks rest) :
    classify? (keyword b ++ rest) = some (.boolean b, (keyword b).length) := by
  cases b <;>
    simp [keyword, classify?, Text.isBlank, Text.blankRanges, operatorAt?, connectiveAt?, stringAt?,
      booleanAt?, breaks.word]

theorem tokensFrom_keyword (b : Bool) (breaks : Breaks rest) :
    tokensFrom position (keyword b ++ rest) =
      (tokensFrom (position + (keyword b).length) rest).map
        (⟨.literal (.flag b), Text.ofList (keyword b), position⟩ :: ·) :=
  tokensFrom_token position (by cases b <;> decide) (classify?_keyword b breaks) rfl

theorem unsignedLength?_unsigned (n : Numeral) (stops : Numeral.Stops rest) :
    unsignedLength? (n.unsigned ++ rest) = some n.unsigned.length := by
  obtain ⟨whole, tail⟩ := Numeral.takeWhile_digits n.whole_digits (n.tail_stops stops)
  have some_whole : n.whole.length ≠ 0 := by simp [n.some_whole]
  rw [unsignedLength?, Numeral.unsigned, List.append_assoc, whole, tail, if_neg some_whole]
  by_cases point : n.fraction = []
  · have noPoint : ∀ more, rest ≠ .char '.' :: more := by
      rintro more rfl
      exact (stops '.' rfl).2 rfl
    simp only [Numeral.tail, point, if_true, List.nil_append, List.append_nil]
  · have digits := Numeral.takeWhile_digits n.fraction_digits fun c hc => (stops c hc).1
    simp only [Numeral.tail, point, if_false, List.cons_append, digits, List.length_append,
      List.length_cons, List.length_eq_zero_iff]
    exact congrArg some (by omega)

theorem numberAt?_text (n : Numeral) (stops : Numeral.Stops rest) :
    numberAt? (n.text ++ rest) = some n.text.length := by
  have length := unsignedLength?_unsigned n stops
  cases sign : n.negative with
  | true => simp [Numeral.text, sign, numberAt?, length]
  | false =>
      obtain ⟨d, more, unsigned, digit⟩ := n.unsigned_head
      have minus : d ≠ '-' := Text.isDecimalDigit_ne digit (by decide)
      simp only [Numeral.text, sign, Bool.false_eq_true, if_false]
      rw [unsigned] at length ⊢
      rw [List.cons_append] at length ⊢
      rw [numberAt?_of_ne minus, length]

theorem digitValues_tail (n : Numeral) : digitValues n.tail = Numeral.values n.fraction := by
  unfold Numeral.tail
  split
  · rename_i none
    rw [none]
    rfl
  · exact List.filterMap_cons_none (by decide)

/-- A number is read as the value it spells. -/
theorem numeralValue_text (n : Numeral) : numeralValue n.text = n.value := by
  have stops := n.tail_stops Numeral.stops_nil
  rw [List.append_nil] at stops
  obtain ⟨whole, tail⟩ := Numeral.takeWhile_digits n.whole_digits stops
  have digits : Double.ofDigits n.negative (digitValues (n.unsigned.takeWhile Text.isDecimalDigit))
      (digitValues (n.unsigned.dropWhile Text.isDecimalDigit)) 0 = n.value := by
    rw [Numeral.unsigned, whole, tail, digitValues_tail]
    rfl
  cases sign : n.negative with
  | true =>
      rw [sign] at digits
      simpa only [Numeral.text, sign, if_true, numeralValue] using digits
  | false =>
      rw [sign] at digits
      obtain ⟨d, more, unsigned, digit⟩ := n.unsigned_head
      have minus : d ≠ '-' := Text.isDecimalDigit_ne digit (by decide)
      simp only [Numeral.text, sign, Bool.false_eq_true, if_false]
      rw [unsigned] at digits ⊢
      simpa [numeralValue, minus] using digits

theorem text_head (n : Numeral) :
    ∃ c l, n.text = c :: l ∧ (c = '-' ∨ Text.isDecimalDigit c = true) := by
  obtain ⟨d, more, unsigned, digit⟩ := n.unsigned_head
  cases sign : n.negative with
  | true => exact ⟨'-', n.unsigned, by simp [Numeral.text, sign], .inl rfl⟩
  | false => exact ⟨d, more, by simp [Numeral.text, sign, unsigned], .inr digit⟩

theorem classify?_numeral (n : Numeral) (stops : Numeral.Stops rest) :
    classify? (n.text ++ rest) = some (.number, n.text.length) := by
  have number := numberAt?_text n stops
  obtain ⟨c, l, text, start⟩ := text_head n
  have apart : ∀ d : CodePoint, d ≠ '-' → Text.isDecimalDigit d = false → c ≠ d := by
    rintro d minus other rfl
    obtain rfl | digit := start
    · exact minus rfl
    · exact Text.isDecimalDigit_ne digit other rfl
  have unblank : Text.isBlank c = false := by
    obtain rfl | digit := start
    · decide
    · exact Text.not_isBlank_of_isDecimalDigit digit
  rw [text, List.cons_append] at number ⊢
  have operator := operatorAt?_of_ne ⟨apart '=' (by decide) (by decide),
    apart '!' (by decide) (by decide), apart '>' (by decide) (by decide),
    apart '<' (by decide) (by decide)⟩ (l ++ rest)
  have connective := connectiveAt?_of_ne
    ⟨apart '&' (by decide) (by decide), apart '|' (by decide) (by decide)⟩ (l ++ rest)
  have string := stringAt?_of_ne (apart '"' (by decide) (by decide)) (l ++ rest)
  have boolean := booleanAt?_of_ne
    ⟨apart 't' (by decide) (by decide), apart 'f' (by decide) (by decide)⟩ (l ++ rest)
  simp [classify?, unblank, operator, connective, string, boolean, number]

theorem tokensFrom_numeral (n : Numeral) (breaks : Breaks rest) :
    tokensFrom position (n.text ++ rest) = (tokensFrom (position + n.text.length) rest).map
      (⟨.literal (.number n.value), Text.ofList n.text, position⟩ :: ·) := by
  obtain ⟨c, l, text, -⟩ := text_head n
  have present : n.text ≠ [] := by simp [text]
  refine tokensFrom_token position present (classify?_numeral n breaks.stops) ?_
  rw [meaning, numeralValue_text]

def quotation (spelling : List CodePoint) : List CodePoint := '"' :: (spelling ++ [.char '"'])

theorem quotedLength?_plain {c : CodePoint} (quote : c ≠ '"') (backslash : c ≠ '\\')
    (rest : List CodePoint) : quotedLength? (c :: rest) = (quotedLength? rest).map (· + 1) := by
  rw [quotedLength?]
  · exact quote
  · exact fun _ _ h _ => backslash h
  · exact fun h _ => backslash h

/-- A character that no escape begins with. -/
theorem ne_backslash {c : CodePoint} {s : List CodePoint}
    (escape : ∀ d rest, c = '\\' → s = d :: rest → False) (last : c = '\\' → s = [] → False) :
    c ≠ '\\' := by
  intro backslash
  cases s with
  | nil => exact last backslash rfl
  | cons d s => exact escape d s backslash rfl

theorem quotedLength?_escape {c : CodePoint} (line : c ≠ '\n') (rest : List CodePoint) :
    quotedLength? ('\\' :: c :: rest) = (quotedLength? rest).map (· + 2) := by
  rw [quotedLength?, if_neg line]

theorem hexDigit_plain {n : Nat} {c : CodePoint} (h : Json.HexDigit n c) : c ≠ '"' ∧ c ≠ '\\' := by
  have digits : ∀ n < 16, (CodePoint.char (Nat.digitChar n) ≠ '"' ∧
      CodePoint.char (Nat.digitChar n) ≠ '\\') ∧
      CodePoint.char (Nat.digitChar n).toUpper ≠ '"' ∧
      CodePoint.char (Nat.digitChar n).toUpper ≠ '\\' := by decide
  obtain ⟨small, rfl | rfl⟩ := h
  · exact (digits n small).1
  · exact (digits n small).2

/-- A span of characters that holds no closing quote. -/
def Spans (t : List CodePoint) : Prop :=
  ∀ rest, quotedLength? (t ++ rest) = (quotedLength? rest).map (· + t.length)

theorem Spans.append {t u : List CodePoint} (ht : Spans t) (hu : Spans u) : Spans (t ++ u) := by
  intro rest
  rw [List.append_assoc, ht, hu, Option.map_map, List.length_append]
  exact congrArg (Option.map · _) (funext fun n => by simp only [Function.comp]; omega)

theorem spans_unit {n : Nat} {ds : List CodePoint} (h : Json.HexUnit n ds) :
    Spans ('\\' :: 'u' :: ds) := by
  intro rest
  obtain ⟨ha, hb, hc, hd⟩ := h
  simp only [List.cons_append, List.nil_append]
  rw [quotedLength?_escape (by decide),
    quotedLength?_plain (hexDigit_plain ha).1 (hexDigit_plain ha).2,
    quotedLength?_plain (hexDigit_plain hb).1 (hexDigit_plain hb).2,
    quotedLength?_plain (hexDigit_plain hc).1 (hexDigit_plain hc).2,
    quotedLength?_plain (hexDigit_plain hd).1 (hexDigit_plain hd).2]
  simp only [Option.map_map]
  rfl

theorem spans_spelling {c : CodePoint} {t : List CodePoint} (h : Json.Spelling c t) : Spans t := by
  cases h with
  | plain quote backslash _ => exact fun rest => quotedLength?_plain quote backslash rest
  | letter listed =>
      have table : ∀ p ∈ Json.letterEscapes, p.1 ≠ '\n' := by decide
      exact fun rest => quotedLength?_escape (table _ listed) rest
  | unit digits => exact spans_unit digits
  | pair _ _ _ hd he => exact (spans_unit hd).append (spans_unit he)

/-- No quotation mark inside a spelled string ends the literal early. -/
theorem spans_spells {s t : List CodePoint} (h : Json.Spells s t) : Spans t := by
  induction h with
  | nil => exact fun rest => by simp
  | cons head _ ih => exact (spans_spelling head).append ih

theorem classify?_quotation {t : List CodePoint} (spans : Spans t) (rest : List CodePoint) :
    classify? (quotation t ++ rest) = some (.string, (quotation t).length) := by
  have closed : quotedLength? (t ++ .char '"' :: rest) = some (t.length + 1) := by
    rw [spans, quotedLength?]
    exact congrArg some (Nat.add_comm 1 _)
  simp [quotation, classify?, Text.isBlank, Text.blankRanges, operatorAt?, connectiveAt?, stringAt?,
    closed]

theorem tokensFrom_quotation {s t : List CodePoint} (h : Json.Spells s t) (rest : List CodePoint) :
    tokensFrom position (quotation t ++ rest) =
      (tokensFrom (position + (quotation t).length) rest).map
        (⟨.literal (.text (Text.ofList s)), Text.ofList (quotation t), position⟩ :: ·) := by
  refine tokensFrom_token position (List.cons_ne_nil _ _)
    (classify?_quotation (spans_spells h) rest) ?_
  rw [meaning, List.drop_succ_cons, List.drop_zero, Json.readString_spells h]

end

end ReleaseGate.Condition
