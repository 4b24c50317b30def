import ReleaseGate.Proofs.Condition.Rendering

/-!
Two conditions with `||` or `&&` between their texts. A lexeme ends where a connective stands behind
it, so the tokens of the whole are those of the parts with the connective between them. With `||`
the terms stand one after another, and the whole holds where one of the parts does; with `&&` the
last term of the one and the first term of the other become one, since `&&` binds tighter on both
sides.
-/

namespace ReleaseGate.Condition

variable {s rest : List CodePoint}

theorem Links.fails {p : CodePoint → Bool} (links : Links rest) (both : p '&' = false)
    (either : p '|' = false) : ∀ c ∈ rest.head?, p c = false := by
  intro c hc
  obtain rfl | rfl := links c hc
  · exact both
  · exact either

theorem takeWhile_append_stop {p : CodePoint → Bool} (fails : ∀ c ∈ rest.head?, p c = false)
    (s : List CodePoint) : (s ++ rest).takeWhile p = s.takeWhile p := by
  induction s with
  | nil =>
      cases rest with
      | nil => rfl
      | cons c rest => simp [fails c rfl]
  | cons c s ih => cases h : p c <;> simp [h, ih]

theorem dropWhile_append_stop {p : CodePoint → Bool} (fails : ∀ c ∈ rest.head?, p c = false)
    (s : List CodePoint) : (s ++ rest).dropWhile p = s.dropWhile p ++ rest := by
  induction s with
  | nil =>
      cases rest with
      | nil => rfl
      | cons c rest => simp [fails c rfl]
  | cons c s ih => cases h : p c <;> simp [h, ih]

theorem head?_append_link {d : CodePoint} (links : Links rest) (other : d ≠ '&' ∧ d ≠ '|')
    (s : List CodePoint) : (s ++ rest).head? = some d ↔ s.head? = some d := by
  cases s with
  | nil =>
      refine iff_of_false (fun next => ?_) (fun next => nomatch next)
      obtain rfl | rfl := links d next
      · exact other.1 rfl
      · exact other.2 rfl
  | cons c s => rfl

/-- Of what stands behind its first character an operator only takes an equals sign. -/
theorem operatorAt?_cons (c : CodePoint) (s : List CodePoint) :
    operatorAt? (c :: s) =
      if s.head? = some (.char '=') then operatorAt? [c, '='] else operatorAt? [c] := by
  by_cases other : c ≠ '=' ∧ c ≠ '!' ∧ c ≠ '>' ∧ c ≠ '<'
  · rw [operatorAt?_of_ne other, operatorAt?_of_ne other, operatorAt?_of_ne other, ite_self]
  · cases s with
    | nil => rfl
    | cons d s =>
        have opens : c = '=' ∨ c = '!' ∨ c = '>' ∨ c = '<' := by tauto
        by_cases equals : d = '='
        · subst equals
          obtain rfl | rfl | rfl | rfl := opens <;> rfl
        · obtain rfl | rfl | rfl | rfl := opens <;> simp [operatorAt?, equals]

theorem operatorAt?_append (links : Links rest) (c : CodePoint) (s : List CodePoint) :
    operatorAt? (c :: s ++ rest) = operatorAt? (c :: s) := by
  have next : (s ++ rest).head? = some (.char '=') ↔ s.head? = some (.char '=') :=
    head?_append_link links (by decide) s
  rw [List.cons_append, operatorAt?_cons, operatorAt?_cons c s]
  simp only [next]

theorem connectiveAt?_append (c d : CodePoint) (s rest : List CodePoint) :
    connectiveAt? (c :: d :: s ++ rest) = connectiveAt? (c :: d :: s) := by
  rw [List.cons_append, List.cons_append]
  unfold connectiveAt?
  split <;> simp_all

theorem quotedLength?_append {n : Nat} (h : quotedLength? s = some n) (rest : List CodePoint) :
    quotedLength? (s ++ rest) = some n := by
  fun_induction quotedLength? s generalizing n with
  | case1 => cases h
  | case2 => exact h
  | case3 => cases h
  | case4 c s line ih =>
      obtain ⟨m, inner, rfl⟩ := Option.map_eq_some_iff.1 h
      rw [List.cons_append, List.cons_append, quotedLength?_escape line, ih inner]
      rfl
  | case5 => cases h
  | case6 c s quote escape last ih =>
      obtain ⟨m, inner, rfl⟩ := Option.map_eq_some_iff.1 h
      rw [List.cons_append, quotedLength?_plain quote (ne_backslash escape last), ih inner]
      rfl

theorem stringAt?_append {n : Nat} (h : stringAt? s = some n) (rest : List CodePoint) :
    stringAt? (s ++ rest) = some n := by
  unfold stringAt? at h
  split at h
  · obtain ⟨m, inner, rfl⟩ := Option.map_eq_some_iff.1 h
    rw [List.cons_append, stringAt?, quotedLength?_append inner]
    rfl
  · cases h

theorem unsignedLength?_append (links : Links rest) (s : List CodePoint) :
    unsignedLength? (s ++ rest) = unsignedLength? s := by
  have fails : ∀ c ∈ rest.head?, Text.isDecimalDigit c = false :=
    links.fails (by decide) (by decide)
  rw [unsignedLength?, unsignedLength?, takeWhile_append_stop fails, dropWhile_append_stop fails]
  cases s.dropWhile Text.isDecimalDigit with
  | nil =>
      cases rest with
      | nil => rfl
      | cons d rest => obtain rfl | rfl := links d rfl <;> rfl
  | cons c s =>
      by_cases point : c = '.'
      · subst point
        simp only [List.cons_append, takeWhile_append_stop fails]
      · simp [point]

theorem numberAt?_append (links : Links rest) (c : CodePoint) (s : List CodePoint) :
    numberAt? (c :: s ++ rest) = numberAt? (c :: s) := by
  by_cases minus : c = '-'
  · subst minus
    rw [List.cons_append, numberAt?, numberAt?, unsignedLength?_append links]
  · rw [List.cons_append, numberAt?_of_ne minus, numberAt?_of_ne minus, ← List.cons_append,
      unsignedLength?_append links]

theorem identifierAt?_append_link (links : Links rest) (c : CodePoint) (s : List CodePoint) :
    identifierAt? (c :: s ++ rest) = identifierAt? (c :: s) := by
  have fails : ∀ c ∈ rest.head?, isWordChar c = false := links.fails (by decide) (by decide)
  rw [List.cons_append, identifierAt?, identifierAt?, takeWhile_append_stop fails]

theorem identifierAt?_within {n : Nat} (h : identifierAt? s = some n) : n ≤ s.length := by
  unfold identifierAt? at h
  split at h
  · split at h
    · cases h
      rename_i rest _
      have := (List.takeWhile_prefix isWordChar (l := rest)).length_le
      rw [List.length_cons]
      omega
    · cases h
  · cases h

theorem booleanAt?_keyword {b : Bool} {n : Nat} (h : booleanAt? s = some (b, n)) :
    s.take n = keyword b := by
  unfold booleanAt? at h
  split at h
  · split at h <;> cases h
    rfl
  · split at h <;> cases h
    rfl
  · cases h

/-- A truth value is a word that is a keyword. -/
theorem booleanAt?_eq_some {b : Bool} {n : Nat} :
    booleanAt? s = some (b, n) ↔ identifierAt? s = some n ∧ s.take n = keyword b := by
  constructor
  · exact fun h => ⟨(booleanAt?_word h).2.1, booleanAt?_keyword h⟩
  · rintro ⟨word, spelled⟩
    have isWord : isKeyword (s.take n) = true := by
      rw [spelled]
      cases b <;> rfl
    obtain ⟨⟨d, m⟩, found⟩ := Option.isSome_iff_exists.1 (keyword_boolean word isWord)
    cases word.symm.trans (booleanAt?_word found).2.1
    have same : keyword b = keyword d := spelled.symm.trans (booleanAt?_keyword found)
    have value : b = d := by
      revert same
      cases b <;> cases d <;> decide
    rw [found, value]

theorem booleanAt?_append (links : Links rest) (c : CodePoint) (s : List CodePoint) :
    booleanAt? (c :: s ++ rest) = booleanAt? (c :: s) := by
  refine Option.ext fun (b, n) => ?_
  rw [booleanAt?_eq_some, booleanAt?_eq_some, identifierAt?_append_link links]
  refine and_congr_right fun word => ?_
  rw [List.take_append_of_le_length (identifierAt?_within word)]

theorem classify?_quote (unclosed : stringAt? ('"' :: s) = none) : classify? ('"' :: s) = none := by
  have operator := operatorAt?_of_ne (c := '"') (by decide) s
  have connective := connectiveAt?_of_ne (c := '"') (by decide) s
  have boolean := booleanAt?_of_ne (c := '"') (by decide) s
  have number : numberAt? ('"' :: s) = none := by
    rw [numberAt?_of_ne (by decide), unsignedLength?_of_not_digit (by decide)]
  have word : identifierAt? ('"' :: s) = none := by rw [identifierAt?, if_neg (by decide)]
  have blank : Text.isBlank '"' = false := by decide
  simp [classify?, blank, operator, connective, unclosed, boolean, number, word]

/-- The first lexeme of a text, if it has one, is not changed by a connective behind the text. -/
theorem classify?_append {k : Class} {n : Nat} (h : classify? s = some (k, n))
    (links : Links rest) :
    classify? (s ++ rest) = some (k, n) := by
  cases s with
  | nil => cases h
  | cons c s =>
      -- A lone ampersand or bar is no lexeme, so none is completed from behind.
      have connective : connectiveAt? (c :: s ++ rest) = connectiveAt? (c :: s) := by
        cases s with
        | nil =>
            have other : c ≠ '&' ∧ c ≠ '|' := by
              constructor
              all_goals
                rintro rfl
                cases h
            rw [List.singleton_append, connectiveAt?_of_ne other, connectiveAt?_of_ne other]
        | cons d s => exact connectiveAt?_append c d s rest
      -- Nor is a quote that the text does not close.
      have string : stringAt? (c :: s ++ rest) = stringAt? (c :: s) := by
        cases found : stringAt? (c :: s) with
        | some n => exact stringAt?_append found rest
        | none =>
            have other : c ≠ '"' := by
              rintro rfl
              rw [classify?_quote found] at h
              cases h
            exact stringAt?_of_ne other _
      rw [classify?, takeWhile_append_stop (links.fails (by decide) (by decide)),
        operatorAt?_append links, connective, string, booleanAt?_append links,
          numberAt?_append links,
        identifierAt?_append_link links]
      exact h

theorem quotedLength?_within {n : Nat} (h : quotedLength? s = some n) : n ≤ s.length := by
  fun_induction quotedLength? s generalizing n with
  | case1 => cases h
  | case2 =>
      cases h
      simp
  | case3 => cases h
  | case4 c s line ih =>
      obtain ⟨m, inner, rfl⟩ := Option.map_eq_some_iff.1 h
      exact Nat.add_le_add_right (ih inner) 2
  | case5 => cases h
  | case6 c s quote escape last ih =>
      obtain ⟨m, inner, rfl⟩ := Option.map_eq_some_iff.1 h
      exact Nat.succ_le_succ (ih inner)

theorem stringAt?_within {n : Nat} (h : stringAt? s = some n) : n ≤ s.length := by
  unfold stringAt? at h
  split at h
  · obtain ⟨m, inner, rfl⟩ := Option.map_eq_some_iff.1 h
    exact Nat.succ_le_succ (quotedLength?_within inner)
  · cases h

theorem classify?_within {k : Class} {n : Nat} (h : classify? s = some (k, n)) : n ≤ s.length := by
  cases firstLexeme_of_classify? h with
  | blank => exact (List.takeWhile_prefix Text.isBlank).length_le
  | comparison operator => exact (operatorAt?_skips operator).within
  | connective _ connective => exact (connectiveAt?_skips connective).within
  | string _ _ string => exact stringAt?_within string
  | boolean _ _ _ boolean => exact identifierAt?_within (booleanAt?_eq_some.1 boolean).1
  | number _ _ _ _ number => exact (numberAt?_skips number).within
  | identifier _ _ _ _ _ word => exact identifierAt?_within word

/-- A text is empty, or it has a fault at its head, wherever it stands, or it begins with a lexeme.
-/
@[elab_as_elim]
theorem lexeme_induction {motive : List CodePoint → Prop} (empty : motive [])
    (fault : ∀ s cause, s ≠ [] → (∀ position, tokensFrom position s = .error ⟨cause, position⟩) →
      motive s)
    (lexeme : ∀ lexeme rest k m, lexeme ≠ [] →
      classify? (lexeme ++ rest) = some (k, lexeme.length) → meaning k lexeme = .ok m →
      motive rest → motive (lexeme ++ rest)) (s : List CodePoint) : motive s := by
  have all : ∀ (position : Nat) (s : List CodePoint), motive s := fun position s => by
    induction position, s using tokensFrom.induct with
    | case1 => exact empty
    | case2 _ c s unread =>
        refine fault (c :: s) (.unexpectedCharacter c) (List.cons_ne_nil c s) fun position => ?_
        rw [tokensFrom, unread]
    | case3 _ c s k n head word cause refused =>
        refine fault (c :: s) cause (List.cons_ne_nil c s) fun position => ?_
        simp only [word] at refused
        rw [tokensFrom, head]
        simp only [refused]
    | case4 _ c s k n head _ m means ih =>
        have positive := classify?_positive head
        have size : ((c :: s).take n).length = n := List.length_take_of_le (classify?_within head)
        have whole : (c :: s).take n ++ s.drop (n - 1) = c :: s := by
          rw [← List.drop_cons (a := c) positive, List.take_append_drop]
        rw [← whole]
        refine lexeme _ _ k m (List.length_pos_iff.1 (by rwa [size])) ?_ means ih
        rw [whole, size, head]
  exact all 0 s

/-- A text and what a connective continues it with are cut one after the other. -/
theorem tokensFrom_append {position : Nat} {ts : List Token} (h : tokensFrom position s = .ok ts)
    (links : Links rest) :
    tokensFrom position (s ++ rest) =
      (tokensFrom (position + s.length) rest).map (ts ++ ·) := by
  induction s using lexeme_induction generalizing position ts with
  | empty =>
      rw [tokensFrom] at h
      cases h
      exact (congrFun Except.map_id (tokensFrom position rest)).symm
  | fault s cause _ fails =>
      rw [fails] at h
      cases h
  | lexeme lexeme later k m present head means ih =>
      rw [tokensFrom_lexeme position present head means] at h
      obtain ⟨us, tail, rfl⟩ := map_eq_ok h
      have head := classify?_append head links
      rw [List.append_assoc] at head ⊢
      rw [tokensFrom_lexeme position present head means, ih tail, List.length_append, Nat.add_assoc]
      cases tokensFrom _ rest <;> cases m <;> rfl

def Token.shifted (n : Nat) (t : Token) : Token := { t with position := n + t.position }

/-- Moving the text moves the positions of its tokens and nothing else. -/
theorem tokensFrom_shifted {position : Nat} {ts : List Token} (h : tokensFrom position s = .ok ts)
    (n : Nat) : tokensFrom (n + position) s = .ok (ts.map (Token.shifted n)) := by
  induction s using lexeme_induction generalizing position ts with
  | empty =>
      rw [tokensFrom] at h ⊢
      cases h
      rfl
  | fault s cause _ fails =>
      rw [fails] at h
      cases h
  | lexeme lexeme later k m present head means ih =>
      rw [tokensFrom_lexeme position present head means] at h
      obtain ⟨us, tail, rfl⟩ := map_eq_ok h
      rw [tokensFrom_lexeme (n + position) present head means, Nat.add_assoc, ih tail]
      cases m <;> rfl

/-- The terms of two sentences that a connective joins: one after the other, or with the last one of
the first sentence and the first one of the second in one. -/
def joined : Connective → List (List Comparison) → List (List Comparison) → List (List Comparison)
  | .either, ts, us => ts ++ us
  | .both, ts, us => ts.dropLast ++ [ts.getLastD [] ++ us.headD []] ++ us.tail

theorem joined_cons (k : Connective) (t : List Comparison) {ts : List (List Comparison)}
    (present : ts ≠ []) (us : List (List Comparison)) :
    joined k (t :: ts) us = t :: joined k ts us := by
  obtain ⟨u, ts, rfl⟩ := List.exists_cons_of_ne_nil present
  cases k <;> rfl

theorem joined_both_single (c : Comparison) (us : List (List Comparison)) :
    joined .both [[c]] us = joinFirst c us := by
  cases us <;> rfl

theorem joined_ne_nil (k : Connective) (c : Comparison) (ts : List (List Comparison)) :
    joined k [[c]] ts ≠ [] := by
  cases k <;> exact List.cons_ne_nil _ _

theorem joined_assoc (k l : Connective) (c : Comparison) {ts : List (List Comparison)}
    (present : ts ≠ []) (us : List (List Comparison)) :
    joined k (joined l [[c]] ts) us = joined l [[c]] (joined k ts us) := by
  cases l with
  | either => exact joined_cons k [c] present us
  | both =>
      obtain ⟨t, ts, rfl⟩ := List.exists_cons_of_ne_nil present
      rw [joined_both_single, joined_both_single, joinFirst]
      cases ts with
      | nil => cases k <;> rfl
      | cons u ts =>
          have more := List.cons_ne_nil u ts
          rw [joined_cons k _ more, joined_cons k _ more, joinFirst]

section

variable {allowed : List Text} {size : Nat} {name op lit link : Token} {ts : List Token}
  {terms : List (List Comparison)}

/-- Three tokens of a comparison are its only term. -/
theorem sentence_three (name op lit : Token) {operator : Operator} {v : Literal}
    (named : name.meaning = .identifier) (known : name.text ∈ allowed)
    (compares : op.meaning = .comparison operator) (literal : lit.meaning = .literal v)
    (size : Nat) :
    sentence allowed size [name, op, lit] =
      .ok [[⟨name.text, operator, v, name.position⟩]] := by
  simp [sentence, named, known, compares, literal]

/-- A comparison that is joined to a sentence is joined to its terms. -/
theorem sentence_linked (name op lit link : Token) {operator : Operator} {v : Literal}
    {k : Connective} (named : name.meaning = .identifier) (known : name.text ∈ allowed)
    (compares : op.meaning = .comparison operator) (literal : lit.meaning = .literal v)
    (joins : link.meaning = .connective k) (size : Nat) (rest : List Token) :
    sentence allowed size (name :: op :: lit :: link :: rest) =
      (sentence allowed size rest).map (joined k [[⟨name.text, operator, v, name.position⟩]]) := by
  rw [sentence, if_neg (not_not_intro named), if_neg (not_not_intro known)]
  simp only [compares, literal, joins]
  cases k with
  | both => exact congrArg (Except.map · _) (funext fun us => (joined_both_single _ us).symm)
  | either => rfl

theorem sentence_ne_nil (h : sentence allowed size ts = .ok terms) : terms ≠ [] := by
  have grammatical := (sentence_sound h).1
  cases grammatical with
  | factor factor =>
      obtain ⟨operator, compares⟩ := factor.compares
      obtain ⟨v, literal⟩ := factor.literal
      rw [sentence_three _ _ _ factor.named factor.known compares literal] at h
      cases h
      exact List.cons_ne_nil _ _
  | joined factor joins _ =>
      obtain ⟨operator, compares⟩ := factor.compares
      obtain ⟨v, literal⟩ := factor.literal
      rw [sentence_linked _ _ _ _ factor.named factor.known compares literal joins] at h
      obtain ⟨inner, -, rfl⟩ := map_eq_ok h
      exact joined_ne_nil _ _ inner

/-- Two sentences with a connective between them are a sentence. The induction is on the first one:
what it begins with is joined to the rest of it, and this to the second sentence. -/
theorem sentence_joined (h : sentence allowed size ts = .ok terms) {k : Connective}
    (joins : link.meaning = .connective k) {size' : Nat} {us : List Token}
    {later : List (List Comparison)} (h' : sentence allowed size' us = .ok later) :
    sentence allowed size' (ts ++ link :: us) = .ok (joined k terms later) := by
  have grammatical := (sentence_sound h).1
  induction grammatical generalizing terms with
  | factor factor =>
      obtain ⟨operator, compares⟩ := factor.compares
      obtain ⟨v, literal⟩ := factor.literal
      rw [sentence_three _ _ _ factor.named factor.known compares literal] at h
      cases h
      have linked := sentence_linked _ _ _ _ factor.named factor.known compares literal joins
        size' us
      rw [h'] at linked
      exact linked
  | @joined _ _ _ _ _ rest factor first _ ih =>
      obtain ⟨operator, compares⟩ := factor.compares
      obtain ⟨v, literal⟩ := factor.literal
      rw [sentence_linked _ _ _ _ factor.named factor.known compares literal first] at h
      obtain ⟨inner, parsed, rfl⟩ := map_eq_ok h
      have linked := sentence_linked _ _ _ _ factor.named factor.known compares literal first size'
        (rest ++ link :: us)
      rw [ih parsed] at linked
      rw [joined_assoc _ _ _ (sentence_ne_nil parsed)]
      exact linked

def shifted (n : Nat) (c : Comparison) : Comparison := { c with position := n + c.position }

def shiftedTerms (n : Nat) (terms : List (List Comparison)) : List (List Comparison) :=
  terms.map fun t => t.map (shifted n)

theorem shiftedTerms_joined (n : Nat) (k : Connective) (c : Comparison)
    (terms : List (List Comparison)) :
    shiftedTerms n (joined k [[c]] terms) = joined k [[shifted n c]] (shiftedTerms n terms) := by
  cases k with
  | either => rfl
  | both => cases terms <;> rfl

/-- Where tokens stand decides nothing but the positions in the terms. -/
theorem sentence_shifted (h : sentence allowed size ts = .ok terms) (n size' : Nat) :
    sentence allowed size' (ts.map (Token.shifted n)) = .ok (shiftedTerms n terms) := by
  have grammatical := (sentence_sound h).1
  induction grammatical generalizing terms with
  | @factor name op lit factor =>
      obtain ⟨operator, compares⟩ := factor.compares
      obtain ⟨v, literal⟩ := factor.literal
      rw [sentence_three _ _ _ factor.named factor.known compares literal] at h
      cases h
      exact sentence_three (name.shifted n) (op.shifted n) (lit.shifted n) factor.named factor.known
        compares literal size'
  | @joined name op lit link k rest factor joins _ ih =>
      obtain ⟨operator, compares⟩ := factor.compares
      obtain ⟨v, literal⟩ := factor.literal
      rw [sentence_linked _ _ _ _ factor.named factor.known compares literal joins] at h
      obtain ⟨inner, parsed, rfl⟩ := map_eq_ok h
      have linked := sentence_linked (name.shifted n) (op.shifted n) (lit.shifted n)
        (link.shifted n) factor.named factor.known compares literal joins size'
        (rest.map (Token.shifted n))
      rw [ih parsed] at linked
      rw [shiftedTerms_joined]
      exact linked

end

variable {allowed : List Text} {a b : Text} {c d : Condition}

/-- A condition parses exactly if its text is cut into the tokens of a sentence. -/
theorem parse_eq_ok {source : Text} :
    parse allowed source = .ok c ↔ c.source = source ∧
      ∃ ts, tokenize source = .ok ts ∧ sentence allowed source.length ts = .ok c.terms := by
  constructor
  · intro parsed
    obtain ⟨ts, tokens, -⟩ := bind_eq_ok parsed
    rw [parse_of_tokens tokens] at parsed
    split at parsed
    · cases parsed
    · obtain ⟨terms, accepted, rfl⟩ := map_eq_ok parsed
      exact ⟨rfl, ts, tokens, accepted⟩
  · rintro ⟨rfl, ts, tokens, accepted⟩
    have present : ts ≠ [] := by
      rintro rfl
      cases accepted
    rw [parse_of_tokens tokens, if_neg present, accepted]
    rfl

/-- A connective between two conditions joins their terms. -/
theorem parse_joined (ha : parse allowed a = .ok c) (hb : parse allowed b = .ok d)
    (k : Connective) :
    parse allowed (a ++ k.symbol ++ b) =
      .ok ⟨a ++ k.symbol ++ b, joined k c.terms (shiftedTerms (a.length + 2) d.terms)⟩ := by
  obtain ⟨-, ts, tokens, accepted⟩ := parse_eq_ok.1 ha
  obtain ⟨-, us, tokens', accepted'⟩ := parse_eq_ok.1 hb
  refine parse_eq_ok.2 ⟨rfl, ts ++ ⟨.connective k, k.symbol, a.length⟩ ::
    us.map (Token.shifted (a.length + 2)), ?_, ?_⟩
  · have size : k.symbol.toList.length = 2 := by cases k <;> rfl
    have later := tokensFrom_shifted tokens' (a.length + 2)
    have linked := tokensFrom_connective a.length k b.toList
    rw [size, ← Nat.add_zero (a.length + 2), later] at linked
    have whole := tokensFrom_append tokens (links_symbol k b.toList)
    rw [Nat.zero_add, Text.length_toList, linked] at whole
    rw [tokenize, Text.toList_append, Text.toList_append, List.append_assoc, whole]
    rfl
  · exact sentence_joined accepted rfl (sentence_shifted accepted' (a.length + 2) _)

/-- Positions do not enter the value of a condition. -/
theorem holds_shifted (n : Nat) (terms : List (List Comparison)) (x : SignalVector) :
    (shiftedTerms n terms).any (fun t => t.all fun f => f.holds x) =
      terms.any fun t => t.all fun f => f.holds x := by
  simp only [shiftedTerms, List.any_map, Function.comp_def, List.all_map]
  rfl

/-- Two texts that are conditions, with a connective between them, are a condition. With `||` it has
the terms of the one and then those of the other. With `&&` the last term of the one goes on with
the factors of the first term of the other. The positions of the other lie behind the one and the
connective. With `||` the condition holds where one of the two holds. -/
theorem joined_conditions (ha : parse allowed a = .ok c) (hb : parse allowed b = .ok d) :
    let n := a.length + 2
    parse allowed (a ++ "||" ++ b) = .ok ⟨a ++ "||" ++ b, c.terms ++ shiftedTerms n d.terms⟩ ∧
    (∃ before last first after, c.terms = before ++ [last] ∧ d.terms = first :: after ∧
      parse allowed (a ++ "&&" ++ b) = .ok ⟨a ++ "&&" ++ b,
        before ++ [last ++ first.map (shifted n)] ++ shiftedTerms n after⟩) ∧
    (allowed = Signal.identifiers → ∀ x, evaluate a x = .ok (c.holds x) ∧
      evaluate b x = .ok (d.holds x) ∧
      evaluate (a ++ "||" ++ b) x = .ok (c.holds x || d.holds x)) := by
  intro n
  have either := parse_joined ha hb .either
  have both := parse_joined ha hb .both
  refine ⟨either, ?_, ?_⟩
  · obtain ⟨-, ts, -, accepted⟩ := parse_eq_ok.1 ha
    obtain ⟨-, us, -, accepted'⟩ := parse_eq_ok.1 hb
    obtain ⟨first, after, start⟩ := List.exists_cons_of_ne_nil (sentence_ne_nil accepted')
    obtain none | ⟨before, last, ends⟩ := List.eq_nil_or_concat c.terms
    · exact absurd none (sentence_ne_nil accepted)
    · rw [List.concat_eq_append] at ends
      refine ⟨before, last, first, after, ends, start, ?_⟩
      have terms : joined .both c.terms (shiftedTerms n d.terms) =
          before ++ [last ++ first.map (shifted n)] ++ shiftedTerms n after := by
        rw [ends, start]
        simp [joined, shiftedTerms]
      rw [← terms]
      exact both
  · rintro rfl x
    have joins : (⟨a ++ "||" ++ b, c.terms ++ shiftedTerms n d.terms⟩ : Condition).holds x =
        (c.holds x || d.holds x) := by
      rw [holds, List.any_append, holds_shifted]
      rfl
    refine ⟨by rw [evaluate, ha]; rfl, by rw [evaluate, hb]; rfl, ?_⟩
    rw [← joins, evaluate]
    exact congrArg (Except.map fun c : Condition => c.holds x) either

def keywordSource : Text := "ci.status != \"||\" || change.auth == true"

def blankSource : Text := " change.infra == false&&canary.error_rate < 1 "

theorem joined_conditions_keyword :
    ∃ c d, parse Signal.identifiers keywordSource = .ok c ∧
      parse Signal.identifiers blankSource = .ok d ∧
      c.terms.map List.length = [1, 1] ∧ d.terms.map List.length = [2] ∧
      (∃ e, parse Signal.identifiers (keywordSource ++ "||" ++ blankSource) = .ok e ∧
        e.terms.map List.length = [1, 1, 2]) ∧
      ∃ e, parse Signal.identifiers (keywordSource ++ "&&" ++ blankSource) = .ok e ∧
        e.terms.map List.length = [1, 3] := by
  have lengths : (parse Signal.identifiers keywordSource).toOption.map
      (fun c => c.terms.map List.length) = .some [1, 1] := by decide +kernel
  have lengths' : (parse Signal.identifiers blankSource).toOption.map
      (fun d => d.terms.map List.length) = .some [2] := by decide +kernel
  obtain ⟨c, read, ones⟩ := Option.map_eq_some_iff.1 lengths
  obtain ⟨d, read', two⟩ := Option.map_eq_some_iff.1 lengths'
  have parsed := eq_ok_of_toOption read
  have parsed' := eq_ok_of_toOption read'
  obtain ⟨either, ⟨before, last, first, after, ends, start, both⟩, -⟩ :=
    joined_conditions parsed parsed'
  refine ⟨c, d, parsed, parsed', ones, two, ⟨_, either, ?_⟩, _, both, ?_⟩
  · simp [shiftedTerms, Function.comp_def, ones, two]
  · rw [start] at two
    rw [ends, List.map_append] at ones
    have split : before.map List.length ++ [last.length] = [1] ++ [1] := ones
    obtain ⟨earlier, one⟩ := List.append_inj' split rfl
    obtain ⟨length, none⟩ := List.cons.inj two
    cases List.map_eq_nil_iff.1 none
    rw [List.map_append, List.map_append, earlier]
    simp [shiftedTerms, List.singleton_inj.1 one, length]

end ReleaseGate.Condition
