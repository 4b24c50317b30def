import ReleaseGate.Proofs.Json.Lexemes

/-!
The first token of a text. String literals and tokens as relations, with one case for each way in
which the reader goes on; what the reader finds is related so, and a token does not change when the
text is continued behind it.
-/

namespace ReleaseGate.Json

/-- A code unit that is alone before the closing quote is alone with more text behind it as well. -/
theorem Alone.append {n : Nat} {s t rest : List CodePoint} (alone : Alone n s)
    (h : readString s = .ok (t, rest)) (more : List CodePoint) : Alone n (s ++ more) := by
  intro high a b c d later same
  match s with
  | [] => cases h
  | [e] =>
      cases same
      cases h
  | e :: f :: tail =>
      simp only [List.cons_append, List.cons.injEq] at same
      obtain ⟨rfl, rfl, escape⟩ := same
      match tail with
      | a' :: b' :: c' :: d' :: rest' =>
          cases escape
          exact alone high _ _ _ _ _ rfl
      | [] | [_] | [_, _] | [_, _, _] => cases h

theorem alone_before {n low : Nat} {a b c d : CodePoint} {later : List CodePoint}
    (unit : codeUnit? a b c d = some low) (single : isLowUnit low = false) :
    Alone n (.char '\\' :: .char 'u' :: a :: b :: c :: d :: later) := by
  rintro - a b c d later ⟨⟩
  exact ⟨low, unit, single⟩

/-- `StringLiteral s t rest`: the text `s`, behind the opening quotation mark, is the string `t`
up to `rest`. -/
inductive StringLiteral : List CodePoint → List CodePoint → List CodePoint → Prop
  | quote (rest : List CodePoint) : StringLiteral (.char '"' :: rest) [] rest
  | plain {c : CodePoint} {s t rest : List CodePoint} (quote : c ≠ '"') (backslash : c ≠ '\\')
      (control : ¬ c < ' ') (tail : StringLiteral s t rest) : StringLiteral (c :: s) (c :: t) rest
  | short {e c : CodePoint} {s t rest : List CodePoint} (letter : e ≠ 'u')
      (escape : shortEscape? e = some c) (tail : StringLiteral s t rest) :
      StringLiteral (.char '\\' :: e :: s) (c :: t) rest
  | alone {a b c d : CodePoint} {n : Nat} {s t rest : List CodePoint}
      (unit : codeUnit? a b c d = some n) (single : Alone n s) (tail : StringLiteral s t rest) :
      StringLiteral (.char '\\' :: .char 'u' :: a :: b :: c :: d :: s) (.ofNat n :: t) rest
  | pair {a b c d e f g h : CodePoint} {high low : Nat} {s t rest : List CodePoint}
      (first : codeUnit? a b c d = some high) (paired : isHighUnit high = true)
      (second : codeUnit? e f g h = some low) (ending : isLowUnit low = true)
      (tail : StringLiteral s t rest) :
      StringLiteral (.char '\\' :: .char 'u' :: a :: b :: c :: d ::
        .char '\\' :: .char 'u' :: e :: f :: g :: h :: s) (.char (pairedChar high low) :: t) rest

/-- The reader finds what the literal is. -/
theorem StringLiteral.read {s t rest : List CodePoint} (h : StringLiteral s t rest) :
    readString s = .ok (t, rest) := by
  induction h with
  | quote rest => rfl
  | plain quote backslash control _ ih =>
      rw [readString_plain quote backslash control, ih]
      rfl
  | short letter escape _ ih =>
      rw [readString_short letter escape, ih]
      rfl
  | alone unit single _ ih =>
      rw [readString_alone unit single, ih]
      rfl
  | pair first paired second ending _ ih =>
      rw [readString_paired first paired second ending, ih]
      rfl

/-- Whatever is read as a string is a literal. -/
theorem stringLiteral_of_read {s t rest : List CodePoint} (h : readString s = .ok (t, rest)) :
    StringLiteral s t rest := by
  fun_induction readString s generalizing t with
  | case1 | case3 | case4 | case9 | case10 | case12 | case13 => cases h
  | case2 rest =>
      cases h
      exact .quote rest
  | case5 _ _ _ _ high first paired _ _ _ _ _ low second ending =>
      rename_i ih
      obtain ⟨t, rfl, tail⟩ := push_eq_ok h
      exact .pair first paired second ending (ih tail)
  | case6 _ _ _ _ _ unit _ _ _ _ _ _ _ second single =>
      rename_i ih
      obtain ⟨t, rfl, tail⟩ := push_eq_ok h
      exact .alone unit (alone_before second (Bool.eq_false_iff.2 single)) (ih tail)
  | case7 _ _ _ _ _ _ unit =>
      rename_i apart ih
      obtain ⟨t, rfl, tail⟩ := push_eq_ok h
      exact .alone unit (fun _ a b c d later same => (apart a b c d later same).elim) (ih tail)
  | case8 _ _ _ _ _ _ unit =>
      rename_i single ih
      obtain ⟨t, rfl, tail⟩ := push_eq_ok h
      exact .alone unit (fun paired => absurd paired single) (ih tail)
  | case11 _ _ _ noCode _ escape ih =>
      obtain ⟨t, rfl, tail⟩ := push_eq_ok h
      exact .short (fun same => noCode same) escape (ih tail)
  | case14 c s quote _ _ escape lone control ih =>
      obtain ⟨t, rfl, tail⟩ := push_eq_ok h
      have backslash : c ≠ '\\' := by
        intro same
        cases s with
        | nil => exact lone same rfl
        | cons d s => exact escape d s same rfl
      exact .plain quote backslash control (ih tail)

theorem StringLiteral.append {s t rest : List CodePoint} (h : StringLiteral s t rest)
    (more : List CodePoint) : StringLiteral (s ++ more) t (rest ++ more) := by
  induction h with
  | quote rest => exact .quote (rest ++ more)
  | plain quote backslash control _ ih => exact .plain quote backslash control ih
  | short letter escape _ ih => exact .short letter escape ih
  | alone unit single tail ih => exact .alone unit (single.append tail.read more) ih
  | pair first paired second ending _ ih => exact .pair first paired second ending ih

theorem nextToken_word {w : List Char × Value} (hw : w ∈ words) (rest : List CodePoint) :
    nextToken (w.1.map .char ++ rest) = some (.scalar w.2, rest) := by
  simp only [words, List.mem_cons, List.not_mem_nil, or_false] at hw
  rcases hw with rfl | rfl | rfl | rfl | rfl | rfl <;> rfl

theorem readWord_eq_some {s rest : List CodePoint} {t : Token} (h : readWord s = some (t, rest)) :
    ∃ w ∈ words, s = w.1.map .char ++ rest ∧ t = .scalar w.2 := by
  obtain ⟨w, found, same⟩ := Option.map_eq_some_iff.1 h
  have starts : (w.1.map CodePoint.char).isPrefixOf s = true := by simpa using List.find?_some found
  obtain ⟨tail, rfl⟩ := List.isPrefixOf_iff_prefix.1 starts
  cases same
  exact ⟨w, List.mem_of_find?_eq_some found, by simp, rfl⟩

/-- A number starts with a digit, or with one behind a minus sign. -/
theorem readNumber_starts {s : List Char} {v : Value} (h : readNumber s = some v) :
    ∃ negative d rest, s = NumberText.sign negative ++ d :: rest ∧ isDigit d = true := by
  have digits {ds : List Char} (whole : ds.takeWhile isDigit ≠ []) :
      ∃ d rest, ds = d :: rest ∧ isDigit d = true := by
    cases ds with
    | nil => exact absurd rfl whole
    | cons d rest =>
        cases hd : isDigit d with
        | true => exact ⟨d, rest, rfl, hd⟩
        | false => exact absurd (by simp [hd]) whole
  unfold readNumber at h
  split at h
  rename_i negative ds signed
  have whole : ds.takeWhile isDigit ≠ [] := by
    intro none
    simp [none] at h
  obtain ⟨d, rest, rfl, digit⟩ := digits whole
  split at signed
  · cases signed
    exact ⟨true, d, rest, rfl, digit⟩
  · cases signed
    exact ⟨false, d, rest, rfl, digit⟩

theorem exists_chars {s : List CodePoint} (h : ∀ c ∈ s, isNumberChar c = true) :
    ∃ l : List Char, s = l.map .char := by
  induction s with
  | nil => exact ⟨[], rfl⟩
  | cons c s ih =>
      obtain ⟨first, rest⟩ := List.forall_mem_cons.1 h
      obtain ⟨l, rfl⟩ := ih rest
      cases c with
      | char d => exact ⟨d :: l, rfl⟩
      | surrogate u => cases first

/-- A number at the head of a text is its lexeme, whatever stands behind it that could not belong to
it. -/
theorem nextToken_numeral {c : CodePoint} {s rest : List CodePoint} {v : Value}
    (chars : ∀ d ∈ c :: s, isNumberChar d = true)
    (number : readNumber ((c :: s).filterMap CodePoint.char?) = some v) (follows : Follows rest) :
    nextToken (c :: s ++ rest) = some (.scalar v, rest) := by
  obtain ⟨l, text⟩ := exists_chars chars
  cases l with
  | nil => cases text
  | cons d l =>
      obtain ⟨rfl, rfl⟩ := List.cons.inj text
      rw [← List.map_cons, filterMap_char] at number
      have word : readWord (.char d :: (l.map .char ++ rest)) = none := by
        obtain ⟨negative, e, digits, starts, digit⟩ := readNumber_starts number
        rw [← List.cons_append, ← List.map_cons, starts, List.map_append, List.append_assoc]
        exact readWord_number negative digit _
      have own : ∀ e ∈ d :: l, isNumberChar (.char e) = true :=
        fun e he => chars _ (List.mem_map_of_mem he)
      rw [List.cons_append, nextToken_number own word follows, number]
      rfl

def marks : List (CodePoint × Token) :=
  [('[', .openList), (']', .closeList), ('\x7b', .openObject), ('\x7d', .closeObject),
   (',', .comma), (':', .colon)]

/-- `FirstToken s t rest`: the text `s` begins with the token `t`, and `rest` is behind it. -/
inductive FirstToken : List CodePoint → Token → List CodePoint → Prop
  | mark {c : CodePoint} {t : Token} (listed : (c, t) ∈ marks) (rest : List CodePoint) :
      FirstToken (c :: rest) t rest
  | string {s t rest : List CodePoint} (literal : StringLiteral s t rest) :
      FirstToken (.char '"' :: s) (.scalar (.str (Text.ofList t))) rest
  | word {w : List Char × Value} (listed : w ∈ words) (rest : List CodePoint) :
      FirstToken (w.1.map .char ++ rest) (.scalar w.2) rest
  | number {c : CodePoint} {s rest : List CodePoint} {v : Value}
      (chars : ∀ d ∈ c :: s, isNumberChar d = true)
      (number : readNumber ((c :: s).filterMap CodePoint.char?) = some v)
      (follows : Follows rest) : FirstToken (c :: s ++ rest) (.scalar v) rest

theorem FirstToken.next {s rest : List CodePoint} {t : Token} (h : FirstToken s t rest) :
    nextToken s = some (t, rest) := by
  cases h with
  | mark listed =>
      simp only [marks, List.mem_cons, List.not_mem_nil, or_false] at listed
      rcases listed with h | h | h | h | h | h <;> cases h <;> rfl
  | string literal => simp only [nextToken, literal.read]
  | word listed => exact nextToken_word listed rest
  | number chars number follows => exact nextToken_numeral chars number follows

theorem follows_dropWhile (s : List CodePoint) : Follows (s.dropWhile isNumberChar) := by
  intro c hc
  have stop := List.head?_dropWhile_not isNumberChar s
  rw [Option.mem_def.1 hc] at stop
  exact stop

/-- Whatever is read as a token is one of the four kinds. -/
theorem firstToken_of_next {s rest : List CodePoint} {t : Token}
    (h : nextToken s = some (t, rest)) : FirstToken s t rest := by
  unfold nextToken at h
  split at h
  case h_1 => cases h
  case h_8 s =>
    split at h
    · rename_i string
      cases h
      exact .string (stringLiteral_of_read string)
    · cases h
  case h_9 c s _ _ _ _ _ _ _ =>
    split at h
    · rename_i word
      cases h
      obtain ⟨w, listed, text, rfl⟩ := readWord_eq_some word
      exact text ▸ .word listed rest
    · split at h
      · rename_i numeric
        obtain ⟨v, number, same⟩ := Option.map_eq_some_iff.1 h
        cases same
        have chars : ∀ d ∈ c :: s.takeWhile isNumberChar, isNumberChar d = true :=
          List.forall_mem_cons.2 ⟨numeric, List.all_eq_true.1 List.all_takeWhile⟩
        have first := FirstToken.number chars number (follows_dropWhile s)
        rwa [List.cons_append, List.takeWhile_append_dropWhile] at first
      · cases h
  all_goals
    cases h
    exact .mark (by simp [marks]) rest

theorem Follows.append {s : List CodePoint} (h : Follows s) (some : s ≠ [])
    (more : List CodePoint) : Follows (s ++ more) := by
  cases s with
  | nil => exact absurd rfl some
  | cons c s => exact h

/-- A token stays the same when the text is continued, unless a scalar ends the text. -/
theorem FirstToken.append {s rest : List CodePoint} {t : Token} (h : FirstToken s t rest)
    (apart : rest = [] → ∀ v, t ≠ .scalar v) (more : List CodePoint) :
    FirstToken (s ++ more) t (rest ++ more) := by
  cases h with
  | mark listed => exact .mark listed (rest ++ more)
  | string literal => exact .string (literal.append more)
  | word listed =>
      rw [List.append_assoc]
      exact .word listed (rest ++ more)
  | @number c s _ v chars number follows =>
      rw [List.append_assoc]
      exact .number chars number (follows.append (fun none => apart none v rfl) more)

end ReleaseGate.Json
