import ReleaseGate.Proofs.Condition.Joining

/-!
Beginnings of texts. The first lexeme of a text is that of every beginning of the text that holds
it: what stands behind a lexeme may let it go on, but never takes back a part of it. So it is for
each class, also where the class finds nothing, except that a keyword may end where the text breaks
off a longer word.
-/

namespace ReleaseGate.Condition

variable {a b : List CodePoint} {c : CodePoint}

theorem takeWhile_cut {p : CodePoint → Bool} (within : ((a ++ b).takeWhile p).length ≤ a.length) :
    a.takeWhile p = (a ++ b).takeWhile p := by
  rw [List.takeWhile_append] at within ⊢
  split
  · rename_i whole
    rw [if_pos whole, List.length_append] at within
    have none : b.takeWhile p = [] := List.length_eq_zero_iff.1 (by omega)
    rw [none, List.append_nil]
    exact (List.takeWhile_prefix p).eq_of_length whole
  · rfl

theorem dropWhile_cut {p : CodePoint → Bool} (within : ((a ++ b).takeWhile p).length ≤ a.length) :
    (a ++ b).dropWhile p = a.dropWhile p ++ b := by
  have whole : (a ++ b).takeWhile p ++ (a ++ b).dropWhile p =
      a.takeWhile p ++ (a.dropWhile p ++ b) := by
    rw [List.takeWhile_append_dropWhile, ← List.append_assoc, List.takeWhile_append_dropWhile]
  rw [← takeWhile_cut within] at whole
  exact List.append_cancel_left whole

/-- An operator found at the head of a text is found at the head of any beginning that contains it.
-/
theorem operatorAt?_cut {found : Option (Operator × Nat)} (h : operatorAt? (c :: a ++ b) = found)
    (within : ∀ r ∈ found, r.2 ≤ (c :: a).length) : operatorAt? (c :: a) = found := by
  subst h
  rw [List.cons_append] at within ⊢
  cases a with
  | cons d a =>
      rw [operatorAt?_cons, operatorAt?_cons c (d :: a ++ b)]
      rfl
  | nil =>
      by_cases other : c ≠ '=' ∧ c ≠ '!' ∧ c ≠ '>' ∧ c ≠ '<'
      · rw [operatorAt?_of_ne other, operatorAt?_of_ne other]
      · have opens : c = '=' ∨ c = '!' ∨ c = '>' ∨ c = '<' := by tauto
        -- An equals sign behind the beginning would be part of the operator.
        have free : b.head? ≠ some (.char '=') := fun equals => by
          rw [List.nil_append, operatorAt?_cons, if_pos equals] at within
          obtain rfl | rfl | rfl | rfl := opens <;> exact absurd (within _ rfl) (by decide)
        rw [List.nil_append, operatorAt?_cons c b, if_neg free]

theorem connectiveAt?_size {s : List CodePoint} {r : Connective × Nat}
    (h : connectiveAt? s = some r) :
    r.2 = 2 := by
  unfold connectiveAt? at h
  split at h <;> cases h <;> rfl

theorem connectiveAt?_cut {found : Option (Connective × Nat)}
    (h : connectiveAt? (c :: a ++ b) = found) (within : ∀ r ∈ found, r.2 ≤ (c :: a).length) :
    connectiveAt? (c :: a) = found := by
  subst h
  cases a with
  | cons d a => rw [connectiveAt?_append]
  | nil =>
      have none : connectiveAt? [c] = none := by
        unfold connectiveAt?
        split <;> simp_all
      rw [none, eq_comm, Option.eq_none_iff_forall_ne_some]
      intro r found
      have short := within r found
      rw [connectiveAt?_size found] at short
      exact absurd short (by simp)

theorem quotedLength?_take {s : List CodePoint} {n : Nat} (h : quotedLength? s = some n) :
    quotedLength? (s.take n) = some n := by
  fun_induction quotedLength? s generalizing n with
  | case1 => cases h
  | case2 =>
      cases h
      rfl
  | case3 => cases h
  | case4 c s line ih =>
      obtain ⟨m, inner, rfl⟩ := Option.map_eq_some_iff.1 h
      rw [List.take_succ_cons, List.take_succ_cons, quotedLength?_escape line, ih inner]
      rfl
  | case5 => cases h
  | case6 c s quote escape last ih =>
      obtain ⟨m, inner, rfl⟩ := Option.map_eq_some_iff.1 h
      rw [List.take_succ_cons, quotedLength?_plain quote (ne_backslash escape last), ih inner]
      rfl

theorem stringAt?_take {s : List CodePoint} {n : Nat} (h : stringAt? s = some n) :
    stringAt? (s.take n) = some n := by
  unfold stringAt? at h
  split at h
  · obtain ⟨m, inner, rfl⟩ := Option.map_eq_some_iff.1 h
    rw [List.take_succ_cons, stringAt?, quotedLength?_take inner]
    rfl
  · cases h

theorem stringAt?_cut {found : Option Nat} (h : stringAt? (a ++ b) = found)
    (within : ∀ n ∈ found, n ≤ a.length) : stringAt? a = found := by
  cases found with
  | some n =>
      have inner := stringAt?_take h
      rw [List.take_append_of_le_length (within n rfl)] at inner
      have whole := stringAt?_append inner (a.drop n)
      rwa [List.take_append_drop] at whole
  | none =>
      refine Option.eq_none_iff_forall_ne_some.2 fun n inner => ?_
      rw [stringAt?_append inner b] at h
      cases h

theorem unsignedLength?_whole {s : List CodePoint}
    (some : (s.takeWhile Text.isDecimalDigit).length ≠ 0) :
    ∃ n ∈ unsignedLength? s, (s.takeWhile Text.isDecimalDigit).length ≤ n := by
  rw [unsignedLength?]
  dsimp only
  rw [if_neg some]
  split
  · refine ⟨_, rfl, ?_⟩
    split <;> omega
  · exact ⟨_, rfl, Nat.le_refl _⟩

theorem unsignedLength?_cut {found : Option Nat} (h : unsignedLength? (a ++ b) = found)
    (within : ∀ n ∈ found, n ≤ a.length) : unsignedLength? a = found := by
  subst h
  have digits : ((a ++ b).takeWhile Text.isDecimalDigit).length ≤ a.length := by
    by_cases none : ((a ++ b).takeWhile Text.isDecimalDigit).length = 0
    · omega
    · obtain ⟨n, found, least⟩ := unsignedLength?_whole none
      exact Nat.le_trans least (within n found)
  have size := congrArg List.length
    (List.takeWhile_append_dropWhile (p := Text.isDecimalDigit) (l := a))
  rw [takeWhile_cut digits, List.length_append] at size
  rw [unsignedLength?, dropWhile_cut digits] at within
  rw [unsignedLength?, unsignedLength?, takeWhile_cut digits, dropWhile_cut digits]
  dsimp only at within ⊢
  split
  · rfl
  · rename_i some
    rw [if_neg some] at within
    -- A point counts only with a digit behind it, and then both lie within.
    cases tail : a.dropWhile Text.isDecimalDigit with
    | nil =>
        rw [tail] at within size
        cases b with
        | nil => rfl
        | cons d b =>
            by_cases point : d = '.'
            · subst point
              have bound := within _ rfl
              simp only [List.nil_append] at bound ⊢
              split at bound
              · rename_i none
                rw [if_pos none]
              · rw [List.length_nil] at size
                omega
            · simp [point]
    | cons d rest =>
        rw [tail] at within size
        by_cases point : d = '.'
        · subst point
          simp only [List.cons_append] at within
          have bound := within _ rfl
          have fraction : ((rest ++ b).takeWhile Text.isDecimalDigit).length ≤ rest.length := by
            rw [List.length_cons] at size
            split at bound <;> omega
          simp only [List.cons_append, takeWhile_cut fraction]
        · simp [point]

theorem numberAt?_cut {found : Option Nat} (h : numberAt? (c :: a ++ b) = found)
    (within : ∀ n ∈ found, n ≤ (c :: a).length) : numberAt? (c :: a) = found := by
  by_cases minus : c = '-'
  · subst minus
    rw [List.cons_append, numberAt?] at h
    rw [numberAt?, ← h, unsignedLength?_cut rfl]
    intro n digits
    have bound := within (n + 1) (by rw [← h, Option.mem_def.1 digits]; rfl)
    simpa using bound
  · rw [List.cons_append, numberAt?_of_ne minus, ← List.cons_append] at h
    rw [numberAt?_of_ne minus]
    exact unsignedLength?_cut h within

theorem identifierAt?_cut {found : Option Nat} (h : identifierAt? (c :: a ++ b) = found)
    (within : ∀ n ∈ found, n ≤ (c :: a).length) : identifierAt? (c :: a) = found := by
  rw [List.cons_append, identifierAt?] at h
  rw [identifierAt?, ← h]
  split
  · rename_i start
    rw [if_pos start] at h
    have bound := within _ h.symm
    have words : ((a ++ b).takeWhile isWordChar).length ≤ a.length := by
      rw [List.length_cons] at bound
      omega
    rw [takeWhile_cut words]
  · rfl

/-- A keyword is a word, so nothing changes for it where the whole word lies within. -/
theorem booleanAt?_cut {word : Option Nat} (h : identifierAt? (c :: a ++ b) = word)
    (within : ∀ n ∈ word, n ≤ (c :: a).length) :
    booleanAt? (c :: a) = booleanAt? (c :: a ++ b) := by
  refine Option.ext fun (d, n) => ?_
  rw [booleanAt?_eq_some, booleanAt?_eq_some, identifierAt?_cut h within, h]
  refine and_congr_right fun found => ?_
  rw [List.take_append_of_le_length (within n found)]

theorem identifierAt?_of_numberAt? {s : List CodePoint} {n : Nat} (h : numberAt? s = some n) :
    identifierAt? s = none := by
  have skips := numberAt?_skips h
  cases s with
  | nil => rfl
  | cons c s =>
      have first : c ∈ (c :: s).take n := by
        obtain ⟨m, rfl⟩ := Nat.exists_eq_succ_of_ne_zero (Nat.ne_of_gt skips.positive)
        exact List.mem_cons_self
      rw [identifierAt?, (skips.plain c first).2]
      rfl

/-- The first lexeme of a text is that of each beginning of the text that holds it. -/
theorem classify?_cut {k : Class} {n : Nat} (h : classify? (a ++ b) = some (k, n))
    (within : n ≤ a.length) : classify? a = some (k, n) := by
  have positive := classify?_positive h
  have first := firstLexeme_of_classify? h
  obtain ⟨c, a, rfl⟩ := List.exists_cons_of_length_pos (Nat.lt_of_lt_of_le positive within)
  have blanks : ((c :: a ++ b).takeWhile Text.isBlank).length ≤ (c :: a).length := by
    by_cases some : ((c :: a ++ b).takeWhile Text.isBlank).length = 0
    · omega
    · rw [classify?, if_pos some] at h
      cases h
      exact within
  rw [classify?] at h ⊢
  rw [takeWhile_cut blanks]
  split
  · rename_i some
    rw [if_pos some] at h
    exact h
  · rename_i unblank
    cases first with
    | blank some => exact absurd some unblank
    | comparison operator =>
        rw [operatorAt?_cut operator (by simpa using within)]
        rfl
    | connective noOperator connective =>
        rw [operatorAt?_cut noOperator (by simp),
          connectiveAt?_cut connective (by simpa using within)]
        rfl
    | string noOperator noConnective string =>
        rw [operatorAt?_cut noOperator (by simp), connectiveAt?_cut noConnective (by simp),
          stringAt?_cut string (by simpa using within)]
        rfl
    | boolean noOperator noConnective noString boolean =>
        have word := (booleanAt?_eq_some.1 boolean).1
        rw [operatorAt?_cut noOperator (by simp), connectiveAt?_cut noConnective (by simp),
          stringAt?_cut noString (by simp), booleanAt?_cut word (by simpa using within), boolean]
        rfl
    | number noOperator noConnective noString noBoolean number =>
        have noWord := identifierAt?_of_numberAt? number
        rw [operatorAt?_cut noOperator (by simp), connectiveAt?_cut noConnective (by simp),
          stringAt?_cut noString (by simp), booleanAt?_cut noWord (by simp), noBoolean,
          numberAt?_cut number (by simpa using within)]
        rfl
    | identifier noOperator noConnective noString noBoolean noNumber word =>
        rw [operatorAt?_cut noOperator (by simp), connectiveAt?_cut noConnective (by simp),
          stringAt?_cut noString (by simp), booleanAt?_cut word (by simpa using within), noBoolean,
          numberAt?_cut noNumber (by simp), identifierAt?_cut word (by simpa using within)]
        rfl

end ReleaseGate.Condition
