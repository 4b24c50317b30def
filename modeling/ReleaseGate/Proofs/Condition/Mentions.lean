import ReleaseGate.Condition.Evaluate
import ReleaseGate.Condition.Identifiers
import ReleaseGate.Proofs.Steps
import ReleaseGate.Proofs.Text.Characters

/-!
The scan for the identifiers of a text, against two other readings of it. It finds what a search for
words finds once every quoted span is blanked, and, on a text that has tokens, exactly the
identifier tokens.
-/

namespace ReleaseGate.Condition

/-- A character that neither opens a quoted span nor starts a word. -/
def Plain (c : CodePoint) : Prop := c ≠ '"' ∧ isWordStart c = false

instance (c : CodePoint) : Decidable (Plain c) := inferInstanceAs (Decidable (_ ∧ _))

theorem isWordStart_toNat {c : CodePoint} (h : isWordStart c = true) :
    65 ≤ c.toNat ∧ c.toNat ≤ 90 ∨ 97 ≤ c.toNat ∧ c.toNat ≤ 122 ∨ c.toNat = 95 := by
  simp only [isWordStart, Bool.or_eq_true, Bool.and_eq_true, decide_eq_true_eq, beq_iff_eq] at h
  obtain (h | h) | rfl := h
  · exact Or.inl h
  · exact Or.inr (Or.inl h)
  · exact Or.inr (Or.inr rfl)

theorem plain_of_toNat {c : CodePoint} (h : c.toNat ≤ 33 ∨ 128 ≤ c.toNat ∨ 48 ≤ c.toNat ∧
    c.toNat ≤ 57) :
    Plain c := by
  constructor
  · rintro rfl
    revert h
    decide
  · cases word : isWordStart c with
    | false => rfl
    | true =>
        have := isWordStart_toNat word
        omega

theorem plain_of_isBlank {c : CodePoint} (h : Text.isBlank c = true) : Plain c := by
  have := Text.isBlank_toNat h
  exact plain_of_toNat (by omega)

theorem plain_of_isDecimalDigit {c : CodePoint} (h : Text.isDecimalDigit c = true) : Plain c := by
  have := Text.isDecimalDigit_toNat h
  exact plain_of_toNat (by omega)

/-- The first characters of a text that hold no quote and start no word. -/
structure Skips (s : List CodePoint) (n : Nat) : Prop where
  positive : 0 < n
  within : n ≤ s.length
  plain : ∀ c ∈ s.take n, Plain c

theorem Skips.takeWhile {p : CodePoint → Bool} (plain : ∀ c, p c = true → Plain c)
    {s : List CodePoint}
    (some : (s.takeWhile p).length ≠ 0) : Skips s (s.takeWhile p).length where
  positive := Nat.pos_of_ne_zero some
  within := (List.takeWhile_prefix p).length_le
  plain c hc := by
    rw [← List.prefix_iff_eq_take.1 (List.takeWhile_prefix p)] at hc
    exact plain c (List.all_eq_true.1 List.all_takeWhile c hc)

theorem Skips.cons {c : CodePoint} {s : List CodePoint} {n : Nat} (head : Plain c) (h : Skips s n) :
    Skips (c :: s) (n + 1) where
  positive := n.succ_pos
  within := Nat.succ_le_succ h.within
  plain := by
    rw [List.take_succ_cons]
    exact List.forall_mem_cons.2 ⟨head, h.plain⟩

theorem Skips.append {s : List CodePoint} {n m : Nat} (h : Skips s n) (more : Skips (s.drop n) m) :
    Skips s (n + m) where
  positive := Nat.add_pos_left h.positive m
  within := by
    have := h.within
    have := more.within
    rw [List.length_drop] at this
    omega
  plain := by
    rw [List.take_add]
    exact List.forall_mem_append.2 ⟨h.plain, more.plain⟩

theorem operatorAt?_skips {s : List CodePoint} {op : Operator} {n : Nat}
    (h : operatorAt? s = some (op, n)) : Skips s n := by
  have symbols : Plain '=' ∧ Plain '!' ∧ Plain '>' ∧ Plain '<' := by decide
  unfold operatorAt? at h
  split at h <;> cases h <;> exact ⟨by decide, by simp, by simp [symbols]⟩

theorem connectiveAt?_skips {s : List CodePoint} {op : Connective} {n : Nat}
    (h : connectiveAt? s = some (op, n)) : Skips s n := by
  have symbols : Plain '&' ∧ Plain '|' := by decide
  unfold connectiveAt? at h
  split at h <;> cases h <;> exact ⟨by decide, by simp, by simp [symbols]⟩

theorem drop_takeWhile_length {α : Type} (p : α → Bool) (l : List α) :
    l.drop (l.takeWhile p).length = l.dropWhile p := by
  induction l with
  | nil => rfl
  | cons a l ih =>
      cases h : p a with
      | true => simpa [h] using ih
      | false => simp [h]

theorem unsignedLength?_skips {s : List CodePoint} {n : Nat} (h : unsignedLength? s = some n) :
    Skips s n := by
  unfold unsignedLength? at h
  dsimp only at h
  split at h
  · cases h
  · rename_i digits
    have whole : Skips s _ := .takeWhile (fun _ => plain_of_isDecimalDigit) digits
    split at h
    · rename_i rest point
      split at h
      · cases h
        exact whole
      · rename_i digits
        have fraction : Skips rest _ := .takeWhile (fun _ => plain_of_isDecimalDigit) digits
        cases h
        rw [Nat.add_assoc, Nat.add_comm 1]
        refine whole.append ?_
        rw [drop_takeWhile_length, point]
        exact fraction.cons (by decide)
    · cases h
      exact whole

theorem numberAt?_skips {s : List CodePoint} {n : Nat} (h : numberAt? s = some n) : Skips s n := by
  unfold numberAt? at h
  split at h
  · obtain ⟨m, digits, rfl⟩ := Option.map_eq_some_iff.1 h
    exact (unsignedLength?_skips digits).cons (by decide)
  · exact unsignedLength?_skips h

theorem continuesWord_false_iff {s : List CodePoint} :
    continuesWord s = false ↔ (s.takeWhile isWordChar).length = 0 := by
  cases s with
  | nil => simp [continuesWord]
  | cons c s => cases h : isWordChar c <;> simp [continuesWord, h]

theorem identifierAt?_append {c : CodePoint} {l : List CodePoint} (start : isWordStart c = true)
    (word : ∀ a ∈ l, isWordChar a = true) (rest : List CodePoint) :
    identifierAt? (c :: (l ++ rest)) =
      some (1 + (l.length + (rest.takeWhile isWordChar).length)) := by
  rw [identifierAt?, if_pos start, List.takeWhile_append_of_pos word, List.length_append]

theorem identifierAt?_true (rest : List CodePoint) :
    identifierAt? (Text.toList "true" ++ rest) = some (4 + (rest.takeWhile isWordChar).length) := by
  have word : ∀ a ∈ Text.toList "rue", isWordChar a = true := List.all_eq_true.1 (by decide)
  refine (identifierAt?_append (by decide) word rest).trans ?_
  rw [← Nat.add_assoc]
  rfl

theorem identifierAt?_false (rest : List CodePoint) :
    identifierAt? (Text.toList "false" ++ rest) =
      some (5 + (rest.takeWhile isWordChar).length) := by
  have word : ∀ a ∈ Text.toList "alse", isWordChar a = true := List.all_eq_true.1 (by decide)
  refine (identifierAt?_append (by decide) word rest).trans ?_
  rw [← Nat.add_assoc]
  rfl

/-- A truth value is a word, and the scan for identifiers takes it for a keyword. -/
theorem booleanAt?_word {s : List CodePoint} {b : Bool} {n : Nat} (h : booleanAt? s = some (b, n)) :
    stringAt? s = none ∧ identifierAt? s = some n ∧ isKeyword (s.take n) = true := by
  unfold booleanAt? at h
  split at h
  · rename_i rest
    split at h
    · cases h
    · rename_i ends
      cases h
      have word := identifierAt?_true rest
      rw [continuesWord_false_iff.1 (by simpa using ends)] at word
      exact ⟨rfl, word, rfl⟩
  · rename_i rest
    split at h
    · cases h
    · rename_i ends
      cases h
      have word := identifierAt?_false rest
      rw [continuesWord_false_iff.1 (by simpa using ends)] at word
      exact ⟨rfl, word, rfl⟩
  · cases h

theorem not_continuesWord {s word : List CodePoint} {n : Nat} (h : s.take n = word)
    (size : word.length + ((s.drop n).takeWhile isWordChar).length = n) :
    continuesWord (s.drop n) = false := by
  rw [continuesWord_false_iff]
  have taken := congrArg List.length h
  have bound := (List.takeWhile_prefix isWordChar (l := s.drop n)).length_le
  rw [List.length_take] at taken
  rw [List.length_drop] at bound
  omega

theorem keyword_boolean {s : List CodePoint} {n : Nat} (word : identifierAt? s = some n)
    (keyword : isKeyword (s.take n) = true) : (booleanAt? s).isSome = true := by
  have split := List.take_append_drop n s
  rw [isKeyword, Bool.or_eq_true, beq_iff_eq, beq_iff_eq] at keyword
  obtain h | h := keyword
  · rw [h] at split
    rw [← split, identifierAt?_true] at word
    have ends := not_continuesWord h (Option.some.inj word)
    rw [← split]
    show (if continuesWord (s.drop n) then none else some (true, 4)).isSome = true
    rw [ends]
    rfl
  · rw [h] at split
    rw [← split, identifierAt?_false] at word
    have ends := not_continuesWord h (Option.some.inj word)
    rw [← split]
    show (if continuesWord (s.drop n) then none else some (false, 5)).isSome = true
    rw [ends]
    rfl

theorem stringAt?_of_ne {c : CodePoint} (h : c ≠ '"') (s : List CodePoint) :
    stringAt? (c :: s) = none := by
  unfold stringAt?
  split
  · rename_i same
    cases same
    exact absurd rfl h
  · rfl

/-- Characters that begin no word and no string are passed over. -/
theorem mentionsFrom_append {l : List CodePoint} (plain : ∀ c ∈ l, Plain c) (position : Nat)
    (s : List CodePoint) : mentionsFrom position (l ++ s) =
    mentionsFrom (position + l.length) s := by
  induction l generalizing position with
  | nil => rfl
  | cons c l ih =>
      obtain ⟨quote, start⟩ := plain c List.mem_cons_self
      have unquoted := stringAt?_of_ne quote (l ++ s)
      have noWord : identifierAt? (c :: (l ++ s)) = none := by simp [identifierAt?, start]
      rw [List.cons_append, mentionsFrom, unquoted]
      simp only [noWord]
      rw [ih fun c hc => plain c (List.mem_cons_of_mem _ hc), List.length_cons, Nat.add_assoc,
        Nat.add_comm 1]

theorem Skips.mentionsFrom {s : List CodePoint} {n : Nat} (h : Skips s n) (position : Nat) :
    mentionsFrom position s = Condition.mentionsFrom (position + n) (s.drop n) := by
  have split := mentionsFrom_append h.plain position (s.drop n)
  rw [List.take_append_drop, List.length_take_of_le h.within] at split
  exact split

theorem stringAt?_positive {s : List CodePoint} {n : Nat} (h : stringAt? s = some n) : 0 < n := by
  unfold stringAt? at h
  split at h
  · obtain ⟨m, -, rfl⟩ := Option.map_eq_some_iff.1 h
    exact m.succ_pos
  · cases h

theorem identifierAt?_positive {s : List CodePoint} {n : Nat} (h : identifierAt? s = some n) :
    0 < n := by
  unfold identifierAt? at h
  split at h
  · split at h
    · cases h
      omega
    · cases h
  · cases h

theorem mentionsFrom_string {s : List CodePoint} {n : Nat} (h : stringAt? s = some n)
    (position : Nat) :
    mentionsFrom position s = mentionsFrom (position + n) (s.drop n) := by
  cases s with
  | nil => cases h
  | cons c rest =>
      rw [mentionsFrom, h]
      simp only [List.drop_cons (stringAt?_positive h)]

theorem mentionsFrom_word {s : List CodePoint} {n : Nat} (unquoted : stringAt? s = none)
    (word : identifierAt? s = some n) (position : Nat) :
    mentionsFrom position s =
      if isKeyword (s.take n) then mentionsFrom (position + n) (s.drop n)
      else (Text.ofList (s.take n), position) :: mentionsFrom (position + n) (s.drop n) := by
  cases s with
  | nil => cases word
  | cons c rest =>
      rw [mentionsFrom, unquoted]
      simp only [word, List.drop_cons (identifierAt?_positive word)]

/-- What the first lexeme of a text can be: the one that its class finds there, where no class
before finds any. -/
inductive FirstLexeme (s : List CodePoint) : Class → Nat → Prop
  | blank : (s.takeWhile Text.isBlank).length ≠ 0 →
      FirstLexeme s .blank (s.takeWhile Text.isBlank).length
  | comparison {op : Operator} {n : Nat} : operatorAt? s = some (op, n) →
      FirstLexeme s (.comparison op) n
  | connective {link : Connective} {n : Nat} : operatorAt? s = none →
      connectiveAt? s = some (link, n) → FirstLexeme s (.connective link) n
  | string {n : Nat} : operatorAt? s = none → connectiveAt? s = none → stringAt? s = some n →
      FirstLexeme s .string n
  | boolean {b : Bool} {n : Nat} : operatorAt? s = none → connectiveAt? s = none →
      stringAt? s = none → booleanAt? s = some (b, n) → FirstLexeme s (.boolean b) n
  | number {n : Nat} : operatorAt? s = none → connectiveAt? s = none → stringAt? s = none →
      booleanAt? s = none → numberAt? s = some n → FirstLexeme s .number n
  | identifier {n : Nat} : operatorAt? s = none → connectiveAt? s = none → stringAt? s = none →
      booleanAt? s = none → numberAt? s = none → identifierAt? s = some n →
      FirstLexeme s .identifier n

/-- The class of a first lexeme says how the scan for identifiers sees it. -/
theorem firstLexeme_of_classify? {s : List CodePoint} {k : Class} {n : Nat}
    (h : classify? s = some (k, n)) : FirstLexeme s k n := by
  unfold classify? at h
  dsimp only at h
  split at h
  · rename_i blanks
    cases h
    exact .blank blanks
  · simp only [Option.orElse_eq_orElse, Option.orElse_eq_or, Option.or_eq_some_iff,
      Option.map_eq_some_iff, Option.map_eq_none_iff, Prod.mk.injEq, Prod.exists] at h
    obtain ⟨op, m, operator, rfl, rfl⟩ | ⟨noOperator, ⟨c, m, connective, rfl, rfl⟩ |
      ⟨noConnective, ⟨m, string, rfl, rfl⟩ | ⟨noString, ⟨b, m, boolean, rfl, rfl⟩ |
        ⟨noBoolean, ⟨m, number, rfl, rfl⟩ | ⟨noNumber, m, word, rfl, rfl⟩⟩⟩⟩⟩ := h
    · exact .comparison operator
    · exact .connective noOperator connective
    · exact .string noOperator noConnective string
    · exact .boolean noOperator noConnective noString boolean
    · exact .number noOperator noConnective noString noBoolean number
    · exact .identifier noOperator noConnective noString noBoolean noNumber word

theorem classify?_positive {s : List CodePoint} {k : Class} {n : Nat}
    (h : classify? s = some (k, n)) :
    0 < n := by
  cases firstLexeme_of_classify? h with
  | blank blanks => exact Nat.pos_of_ne_zero blanks
  | comparison operator => exact (operatorAt?_skips operator).positive
  | connective _ connective => exact (connectiveAt?_skips connective).positive
  | string _ _ string => exact stringAt?_positive string
  | boolean _ _ _ boolean => exact identifierAt?_positive (booleanAt?_word boolean).2.1
  | number _ _ _ _ number => exact (numberAt?_skips number).positive
  | identifier _ _ _ _ _ word => exact identifierAt?_positive word

/-- What the scan finds at the head of a text whose first lexeme is known. -/
theorem mentionsFrom_lexeme {s : List CodePoint} {k : Class} {n : Nat}
    (h : classify? s = some (k, n))
    (position : Nat) :
    mentionsFrom position s =
      (if k = .identifier then [(Text.ofList (s.take n), position)] else []) ++
        mentionsFrom (position + n) (s.drop n) := by
  cases firstLexeme_of_classify? h with
  | blank blanks =>
      have skips : Skips s _ := .takeWhile (fun _ => plain_of_isBlank) blanks
      exact skips.mentionsFrom position
  | comparison operator => exact (operatorAt?_skips operator).mentionsFrom position
  | connective _ connective => exact (connectiveAt?_skips connective).mentionsFrom position
  | string _ _ string => exact mentionsFrom_string string position
  | boolean _ _ unquoted boolean =>
      obtain ⟨-, word, keyword⟩ := booleanAt?_word boolean
      rw [mentionsFrom_word unquoted word, if_pos keyword]
      rfl
  | number _ _ _ _ number => exact (numberAt?_skips number).mentionsFrom position
  | identifier _ _ unquoted free _ word =>
      have other : ¬ isKeyword (s.take n) = true := fun keyword => by
        have literal := keyword_boolean word keyword
        rw [free] at literal
        cases literal
      rw [mentionsFrom_word unquoted word, if_neg other]
      rfl

def Token.mention? (t : Token) : Option (Text × Nat) :=
  if t.meaning = .identifier then some (t.text, t.position) else none

theorem meaning_identifier {k : Class} {lexeme : List CodePoint} {m : Option Meaning}
    (h : meaning k lexeme = .ok m) : m = some .identifier ↔ k = .identifier := by
  cases k with
  | string =>
      simp only [meaning] at h
      split at h <;> cases h
      simp
  | blank | comparison _ | connective _ | boolean _ | number | identifier =>
      cases h
      simp

/-- On a text that is cut into tokens the scan finds the identifiers among them, in order. -/
theorem mentionsFrom_tokens (position : Nat) (s : List CodePoint) {ts : List Token}
    (h : tokensFrom position s = .ok ts) :
    mentionsFrom position s = ts.filterMap Token.mention? := by
  fun_induction tokensFrom position s generalizing ts with
  | case1 position =>
      cases h
      rw [mentionsFrom]
      rfl
  | case2 | case3 => cases h
  | case4 position c rest k n head lexeme m means =>
      rename_i ih
      have positive := classify?_positive head
      have found := mentionsFrom_lexeme head position
      have kind := meaning_identifier means
      cases later : tokensFrom (position + n) (rest.drop (n - 1)) with
      | error fault =>
          rw [later] at h
          cases h
      | ok ts' =>
          rw [later] at h
          rw [found, List.drop_cons positive, ih later]
          cases m with
          | none =>
              cases h
              rw [if_neg (by simpa using kind)]
              rfl
          | some m =>
              cases h
              rw [Option.some_inj] at kind
              by_cases identifier : k = .identifier
              · rw [if_pos identifier, List.filterMap_cons, Token.mention?,
                  if_pos (kind.2 identifier)]
                rfl
              · rw [if_neg identifier, List.filterMap_cons, Token.mention?,
                  if_neg (fun named => identifier (kind.1 named))]
                rfl

/-- On a text that has tokens, the scan finds the identifier tokens, in order. -/
theorem mentions_of_tokens {source : Text} {ts : List Token} (h : tokenize source = .ok ts) :
    mentions source = ts.filterMap Token.mention? :=
  mentionsFrom_tokens 0 source.toList h

/-- The text with a blank for every character of a quoted span. -/
def blanked (s : List CodePoint) : List CodePoint :=
  match s with
  | [] => []
  | c :: rest =>
      match stringAt? (c :: rest) with
      | some n => List.replicate n (.char ' ') ++ blanked (rest.drop (n - 1))
      | none => c :: blanked rest
termination_by s.length
decreasing_by all_goals simp only [List.length_drop, List.length_cons]; omega

def wordsFrom (position : Nat) (s : List CodePoint) : List (List CodePoint × Nat) :=
  match s with
  | [] => []
  | c :: rest =>
      match identifierAt? (c :: rest) with
      | some n => ((c :: rest).take n, position) :: wordsFrom (position + n) (rest.drop (n - 1))
      | none => wordsFrom (position + 1) rest
termination_by s.length
decreasing_by all_goals simp only [List.length_drop, List.length_cons]; omega

theorem wordsFrom_blanks (n position : Nat) (s : List CodePoint) :
    wordsFrom position (List.replicate n (.char ' ') ++ s) = wordsFrom (position + n) s := by
  induction n generalizing position with
  | zero => rfl
  | succ n ih =>
      have noWord : identifierAt? (' ' :: (List.replicate n (.char ' ') ++ s)) = none := rfl
      rw [List.replicate_succ, List.cons_append, wordsFrom, noWord]
      simp only [ih]
      rw [Nat.add_assoc, Nat.add_comm 1]

theorem blanked_append {l : List CodePoint} (unquoted : ∀ c ∈ l, c ≠ '"') (s : List CodePoint) :
    blanked (l ++ s) = l ++ blanked s := by
  induction l with
  | nil => rfl
  | cons c l ih =>
      rw [List.cons_append, blanked, stringAt?_of_ne (unquoted c List.mem_cons_self)]
      simp only [ih fun c hc => unquoted c (List.mem_cons_of_mem _ hc), List.cons_append]

theorem blanked_ends {s : List CodePoint} (h : continuesWord s = false) :
    continuesWord (blanked s) = false := by
  cases s with
  | nil =>
      rw [blanked]
      rfl
  | cons c rest =>
      rw [blanked]
      split
      · rename_i n quoted
        obtain ⟨m, rfl⟩ := Nat.exists_eq_succ_of_ne_zero (Nat.ne_of_gt (stringAt?_positive quoted))
        rw [List.replicate_succ]
        show isWordChar ' ' = false
        decide
      · exact h

theorem isWordChar_unquoted {c : CodePoint} (h : isWordChar c = true) : c ≠ '"' := by
  rintro rfl
  revert h
  decide

theorem not_continuesWord_dropWhile (s : List CodePoint) :
    continuesWord (s.dropWhile isWordChar) = false := by
  induction s with
  | nil => rfl
  | cons c s ih =>
      cases h : isWordChar c with
      | true => simpa [h] using ih
      | false => simp [h, continuesWord]

theorem wordsFrom_word {c : CodePoint} {rest : List CodePoint} {n : Nat}
    (word : identifierAt? (c :: rest) = some n) (position : Nat) :
    wordsFrom position (blanked (c :: rest)) =
      ((c :: rest).take n, position) ::
        wordsFrom (position + n) (blanked ((c :: rest).drop n)) := by
  rw [identifierAt?] at word
  split at word
  · rename_i start
    let w := rest.takeWhile isWordChar
    let t := rest.dropWhile isWordChar
    have parts : c :: rest = (c :: w) ++ t := by
      rw [List.cons_append, List.takeWhile_append_dropWhile]
    have chars : ∀ a ∈ w, isWordChar a = true := List.all_eq_true.1 List.all_takeWhile
    have first : isWordChar c = true := by simp [isWordChar, start]
    have unquoted : ∀ a ∈ c :: w, a ≠ '"' := List.forall_mem_cons.2
      ⟨isWordChar_unquoted first, fun a ha => isWordChar_unquoted (chars a ha)⟩
    have size : n = (c :: w).length := by
      rw [← Option.some.inj word, List.length_cons, Nat.add_comm]
    have ends := continuesWord_false_iff.1 (blanked_ends (not_continuesWord_dropWhile rest))
    have again := identifierAt?_append start chars (blanked t)
    rw [ends, Nat.add_comm, Nat.add_zero] at again
    rw [parts, size, List.take_left, List.drop_left, blanked_append unquoted, List.cons_append,
      wordsFrom, again]
    simp only [List.length_cons, Nat.add_sub_cancel, List.drop_left, List.take_succ_cons,
      List.take_left]
  · cases word

/-- The scan finds the words of the blanked text, less the keywords. -/
theorem mentionsFrom_eq_words (position : Nat) (s : List CodePoint) :
    mentionsFrom position s =
      ((wordsFrom position (blanked s)).filter fun w => !isKeyword w.1).map fun w =>
        (Text.ofList w.1, w.2) := by
  fun_induction mentionsFrom position s with
  | case1 position =>
      rw [blanked, wordsFrom]
      rfl
  | case2 position c rest n quoted ih =>
      rw [blanked, quoted]
      simp only [wordsFrom_blanks]
      exact ih
  | case3 position c rest unquoted n found word more =>
      rename_i keyword ih
      simp only [more, word] at keyword ⊢
      rw [wordsFrom_word found, List.filter_cons_of_neg (by simpa using keyword), ih,
        List.drop_cons (identifierAt?_positive found)]
  | case4 position c rest unquoted n found word more =>
      rename_i other ih
      simp only [more, word] at other ⊢
      rw [wordsFrom_word found, List.filter_cons_of_pos (by simpa using other), List.map_cons, ih,
        List.drop_cons (identifierAt?_positive found)]
  | case5 position c rest unquoted noWord ih =>
      have start : isWordStart c = false := by simpa [identifierAt?] using noWord
      have again : identifierAt? (c :: blanked rest) = none := by simp [identifierAt?, start]
      rw [blanked, unquoted]
      simp only []
      rw [wordsFrom, again]
      exact ih

section

variable {allowed : List Text} {size : Nat} {source : Text}

theorem other_allowed {t : Token} {m : Meaning} (h : t.meaning = m) (other : m ≠ .identifier) :
    t.meaning = .identifier → t.text ∈ allowed :=
  fun identifier => absurd (h.symm.trans identifier) other

theorem comparison_allowed {name op lit : Token} {operator : Operator} {v : Literal}
    {rest : List Token} (known : name.text ∈ allowed)
    (compares : op.meaning = .comparison operator) (literal : lit.meaning = .literal v)
    (others : ∀ t ∈ rest, t.meaning = .identifier → t.text ∈ allowed) :
    ∀ t ∈ name :: op :: lit :: rest, t.meaning = .identifier → t.text ∈ allowed := by
  simp only [List.forall_mem_cons]
  exact ⟨fun _ => known, other_allowed compares (fun h => nomatch h),
    other_allowed literal (fun h => nomatch h), others⟩

theorem sentence_allowed {ts : List Token} {terms : List (List Comparison)}
    (h : sentence allowed size ts = .ok terms) :
    ∀ t ∈ ts, t.meaning = .identifier → t.text ∈ allowed := by
  fun_induction sentence allowed size ts generalizing terms with
  | case6 name named known op _ compares lit _ literal =>
      exact comparison_allowed (Decidable.not_not.1 known) compares literal (List.forall_mem_nil _)
  | case7 name named known op _ compares lit _ literal _ next rest joins
  | case8 name named known op _ compares lit _ literal _ next rest joins =>
      rename_i ih
      obtain ⟨terms, later, -⟩ := map_eq_ok h
      exact comparison_allowed (Decidable.not_not.1 known) compares literal
        (List.forall_mem_cons.2 ⟨other_allowed joins (fun h => nomatch h), ih later⟩)
  | _ => cases h

/-- An unknown identifier that the parser reports is one of the tokens, and is not allowed. -/
theorem sentence_unknown {ts : List Token} {name : Text} {position : Nat}
    (h : sentence allowed size ts = .error ⟨.unknownIdentifier name, position⟩) :
    (∃ t ∈ ts, t.mention? = some (name, position)) ∧ name ∉ allowed := by
  fun_induction sentence allowed size ts with
  | case3 name rest named unknown =>
      cases h
      have mention : name.mention? = some (name.text, name.position) :=
        if_pos (Decidable.not_not.1 named)
      exact ⟨⟨name, List.mem_cons_self, mention⟩, unknown⟩
  | case7 | case8 =>
      rename_i ih
      obtain ⟨⟨t, ht, mention⟩, unknown⟩ := ih (map_eq_error h)
      exact ⟨⟨t, by simp [ht], mention⟩, unknown⟩
  | _ => cases h

/-- The tokenizer only reports lexical faults. -/
theorem tokensFrom_lexical {position : Nat} {s : List CodePoint} {fault : Fault}
    (h : tokensFrom position s = .error fault) : fault.cause.kind = .lexical := by
  fun_induction tokensFrom position s with
  | case1 => cases h
  | case2 =>
      cases h
      rfl
  | case3 position c rest k n head lexeme cause =>
      rename_i means
      cases h
      cases k with
      | string =>
          simp only [meaning] at means
          split at means <;> cases means
          rfl
      | blank | comparison _ | connective _ | boolean _ | number | identifier => cases means
  | case4 =>
      rename_i ih
      exact ih (map_eq_error h)

/-- Every identifier of a text that parses is allowed. -/
theorem parse_allowed {c : Condition} (h : parse allowed source = .ok c) :
    ∀ m ∈ mentions source, m.1 ∈ allowed := by
  intro m hm
  rw [parse] at h
  cases tokens : tokenize source with
  | error fault =>
      rw [tokens] at h
      cases h
  | ok ts =>
      rw [tokens] at h
      replace h : ofTokens allowed source ts = .ok c := h
      rw [mentions_of_tokens tokens, List.mem_filterMap] at hm
      obtain ⟨t, ht, mention⟩ := hm
      rw [ofTokens] at h
      split at h
      · cases h
      · obtain ⟨terms, parsed, -⟩ := map_eq_ok h
        rw [Token.mention?] at mention
        split at mention
        · rename_i identifier
          cases mention
          exact sentence_allowed parsed t ht identifier
        · cases mention

/-- An unknown identifier that the parser reports is one that the scan finds, in its place. -/
theorem parse_unknown {name : Text} {position : Nat}
    (h : parse allowed source = .error ⟨.unknownIdentifier name, position⟩) :
    (name, position) ∈ mentions source ∧ name ∉ allowed := by
  rw [parse] at h
  cases tokens : tokenize source with
  | error fault =>
      rw [tokens] at h
      cases h
      exact nomatch tokensFrom_lexical tokens
  | ok ts =>
      rw [tokens] at h
      replace h : ofTokens allowed source ts = .error ⟨.unknownIdentifier name, position⟩ := h
      rw [ofTokens] at h
      split at h
      · cases h
      · obtain ⟨⟨t, ht, mention⟩, unknown⟩ := sentence_unknown (map_eq_error h)
        rw [mentions_of_tokens tokens]
        exact ⟨List.mem_filterMap.2 ⟨t, ht, mention⟩, unknown⟩

end

end ReleaseGate.Condition
