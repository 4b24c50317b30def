import ReleaseGate.Proofs.Condition.Beginnings

/-!
Tokens partition their text: with blanks between them they make it up, each at its position, and
each is the one token of its own text. Where a text has no tokens, the part before the fault has,
and the part that begins there has the same fault at its head.
-/

namespace ReleaseGate.Condition

variable {position : Nat} {s : List CodePoint} {ts : List Token}

section

variable {lexeme rest : List CodePoint} {k : Class}

theorem blank_of_meaning (h : meaning k lexeme = .ok none) : k = .blank := by
  cases k with
  | blank => rfl
  | string =>
      simp only [meaning] at h
      split at h <;> cases h
  | comparison _ | connective _ | boolean _ | number | identifier => cases h

theorem isBlank_of_lexeme (head : classify? (lexeme ++ rest) = some (.blank, lexeme.length)) :
    ∀ c ∈ lexeme, Text.isBlank c = true := by
  have prefixed := List.takeWhile_prefix Text.isBlank (l := lexeme ++ rest)
  generalize size : lexeme.length = n at head
  cases firstLexeme_of_classify? head with
  | blank =>
      rw [List.prefix_iff_eq_take, ← size, List.take_left] at prefixed
      rw [← prefixed]
      exact List.all_eq_true.1 List.all_takeWhile

/-- A lexeme that means something is the one token of its own text. -/
theorem tokenize_lexeme (present : lexeme ≠ [])
    (head : classify? (lexeme ++ rest) = some (k, lexeme.length)) {m : Meaning}
    (means : meaning k lexeme = .ok (some m)) :
    tokenize (Text.ofList lexeme) = .ok [⟨m, Text.ofList lexeme, 0⟩] := by
  have alone : classify? (lexeme ++ []) = some (k, lexeme.length) := by
    rw [List.append_nil]
    exact classify?_cut head (Nat.le_refl _)
  have single := tokensFrom_token 0 present alone means
  rw [List.append_nil] at single
  rw [tokenize, Text.toList_ofList, single, tokensFrom]
  rfl

end

/-- Whether the character at a position belongs to a token. -/
def Token.Covers (t : Token) (i : Nat) : Prop :=
  t.position ≤ i ∧ i < t.position + t.text.length

/-- A text that begins at a position, as tokens with blanks between them. Each token stands at its
position and is the one token of its own text. -/
inductive Partition : Nat → List CodePoint → List Token → Prop
  | nil {position : Nat} : Partition position [] []
  | blanks {position : Nat} {l s : List CodePoint} {ts : List Token} :
      (∀ c ∈ l, Text.isBlank c = true) → Partition (position + l.length) s ts →
      Partition position (l ++ s) ts
  | token {t : Token} {s : List CodePoint} {ts : List Token} :
      0 < t.text.length → tokenize t.text = .ok [{ t with position := 0 }] →
      Partition (t.position + t.text.length) s ts →
      Partition t.position (t.text.toList ++ s) (t :: ts)

/-- Tokens and the blanks between them make up the text. -/
theorem partition_of_tokens (h : tokensFrom position s = .ok ts) : Partition position s ts := by
  induction s using lexeme_induction generalizing position ts with
  | empty =>
      rw [tokensFrom] at h
      cases h
      exact .nil
  | fault s cause _ fails =>
      rw [fails] at h
      cases h
  | lexeme lexeme rest k m present head means ih =>
      rw [tokensFrom_lexeme position present head means] at h
      obtain ⟨later, tail, rfl⟩ := map_eq_ok h
      cases m with
      | none =>
          cases blank_of_meaning means
          exact .blanks (isBlank_of_lexeme head) (ih tail)
      | some m =>
          have size : (Text.ofList lexeme).length = lexeme.length := Text.length_ofList _
          have token := Partition.token (t := ⟨m, Text.ofList lexeme, position⟩)
            (size ▸ List.length_pos_iff.2 present) (tokenize_lexeme present head means)
            (size ▸ ih tail)
          rwa [Text.toList_ofList] at token

namespace Partition

theorem le_position (h : Partition position s ts) : ∀ t ∈ ts, position ≤ t.position := by
  induction h with
  | nil => exact List.forall_mem_nil _
  | blanks _ _ ih => exact fun t ht => Nat.le_trans (Nat.le_add_right _ _) (ih t ht)
  | token _ _ _ ih =>
      refine List.forall_mem_cons.2 ⟨Nat.le_refl _, fun u hu => ?_⟩
      exact Nat.le_trans (Nat.le_add_right _ _) (ih u hu)

/-- Each token lies behind the one before it. -/
theorem ascending (h : Partition position s ts) :
    ts.Pairwise fun t u => t.position < u.position ∧ t.position + t.text.length ≤ u.position := by
  induction h with
  | nil => exact .nil
  | blanks _ _ ih => exact ih
  | token present _ later ih =>
      refine .cons (fun u hu => ?_) ih
      have behind := later.le_position u hu
      omega

/-- A token's text is the part of the text at the token's position. -/
theorem stands (h : Partition position s ts) :
    ∀ t ∈ ts, ∃ before after, s = before ++ (t.text.toList ++ after) ∧
      t.position = position + before.length := by
  induction h with
  | nil => exact List.forall_mem_nil _
  | @blanks _ l _ _ _ _ ih =>
      intro t ht
      obtain ⟨before, after, rfl, place⟩ := ih t ht
      refine ⟨l ++ before, after, by rw [List.append_assoc], ?_⟩
      rw [place, List.length_append, Nat.add_assoc]
  | @token u s _ _ _ _ ih =>
      refine List.forall_mem_cons.2 ⟨⟨[], s, rfl, rfl⟩, fun t ht => ?_⟩
      obtain ⟨before, after, rfl, place⟩ := ih t ht
      refine ⟨u.text.toList ++ before, after, by rw [List.append_assoc], ?_⟩
      rw [place, List.length_append, Text.length_toList, Nat.add_assoc]

/-- What belongs to no token is blank. -/
theorem blank_outside (h : Partition position s ts) {i : Nat} {c : CodePoint}
    (found : s[i]? = some c)
    (outside : ∀ t ∈ ts, ¬ t.Covers (position + i)) : Text.isBlank c = true := by
  induction h generalizing i with
  | nil => cases found
  | @blanks position l s _ blank _ ih =>
      by_cases inside : i < l.length
      · rw [List.getElem?_append_left inside] at found
        exact blank c (List.mem_of_getElem? found)
      · have behind := Nat.not_lt.1 inside
        rw [List.getElem?_append_right behind] at found
        refine ih found ?_
        rwa [Nat.add_assoc, Nat.add_sub_cancel' behind]
  | @token u s _ _ _ _ ih =>
      obtain ⟨free, others⟩ := List.forall_mem_cons.1 outside
      have behind : u.text.length ≤ i := by
        simp only [Token.Covers, not_and, Nat.not_lt] at free
        have := free (Nat.le_add_right _ _)
        omega
      rw [← Text.length_toList] at behind
      rw [List.getElem?_append_right behind] at found
      refine ih found ?_
      rwa [← Text.length_toList, Nat.add_assoc, Nat.add_sub_cancel' behind]

/-- A token's text, cut by itself, is that token again. -/
theorem alone (h : Partition position s ts) :
    ∀ t ∈ ts, tokenize t.text = .ok [{ t with position := 0 }] := by
  induction h with
  | nil => exact List.forall_mem_nil _
  | blanks _ _ ih => exact ih
  | token _ single _ ih => exact List.forall_mem_cons.2 ⟨single, ih⟩

end Partition

/-- A text without tokens begins with lexemes, behind which the fault is at the head of the rest. -/
theorem tokensFrom_fault {f : Fault} (h : tokensFrom position s = .error f) :
    ∃ before after, s = before ++ after ∧ after ≠ [] ∧ f.position = position + before.length ∧
      (∃ ts, tokensFrom position before = .ok ts) ∧
      tokensFrom 0 after = .error { f with position := 0 } := by
  induction s using lexeme_induction generalizing position with
  | empty =>
      rw [tokensFrom] at h
      cases h
  | fault s cause present fails =>
      rw [fails] at h
      cases h
      exact ⟨[], s, rfl, present, rfl, ⟨[], by rw [tokensFrom]⟩, fails 0⟩
  | lexeme lexeme rest k m present head means ih =>
      rw [tokensFrom_lexeme position present head means] at h
      obtain ⟨before, after, rfl, some, place, ⟨ts, tokens⟩, fault⟩ := ih (map_eq_error h)
      -- What stands before the fault is a beginning of the text, and it holds the lexeme.
      rw [← List.append_assoc] at head
      have head := classify?_cut head (by simp)
      refine ⟨lexeme ++ before, after, (List.append_assoc _ _ _).symm, some, ?_, ?_, fault⟩
      · rw [place, List.length_append, Nat.add_assoc]
      · rw [tokensFrom_lexeme position present head means, tokens]
        exact ⟨_, rfl⟩

/-- Where a text has tokens, their positions ascend, none reaches into the next one, each has the
text at its position, what lies outside of them is blank, and each is the one token of its own text.
Where it has none, the fault lies within the text, what stands before it has tokens, and what begins
with it has this fault at once. -/
theorem tokens_partition (source : Text) :
    (∀ ts, tokenize source = .ok ts →
      (ts.Pairwise fun t u => t.position < u.position ∧ t.position + t.text.length ≤ u.position) ∧
      (∀ t ∈ ts, (source.toList.drop t.position).take t.text.length = t.text.toList) ∧
      (∀ i c, source.toList[i]? = some c → (∀ t ∈ ts, ¬ t.Covers i) → Text.isBlank c = true) ∧
      ∀ t ∈ ts, tokenize t.text = .ok [{ t with position := 0 }]) ∧
    ∀ f, tokenize source = .error f →
      f.position < source.length ∧
      (∃ ts, tokenize (Text.ofList (source.toList.take f.position)) = .ok ts) ∧
      tokenize (Text.ofList (source.toList.drop f.position)) =
        .error { f with position := 0 } := by
  constructor
  · intro ts tokens
    have partition := partition_of_tokens tokens
    refine ⟨partition.ascending, fun t ht => ?_, fun i c found outside => ?_, partition.alone⟩
    · obtain ⟨before, after, split, place⟩ := partition.stands t ht
      rw [split, place, Nat.zero_add, List.drop_left, ← Text.length_toList, List.take_left]
    · exact partition.blank_outside found (by simpa using outside)
  · intro f fault
    obtain ⟨before, after, split, present, place, tokens, behind⟩ := tokensFrom_fault fault
    rw [Nat.zero_add] at place
    refine ⟨?_, ?_, ?_⟩
    · rw [← Text.length_toList, split, place, List.length_append]
      exact Nat.lt_add_of_pos_right (List.length_pos_iff.2 present)
    · rw [tokenize, Text.toList_ofList, split, place, List.take_left]
      exact tokens
    · rw [tokenize, Text.toList_ofList, split, place, List.drop_left]
      exact behind

def crowdedSource : Text := " trueish>=-5.5&&\"\\u0022 || \"<x\t"

def pointSource : Text := "trueish >5.&&"

theorem tokens_partition_crowded :
    (∃ ts, tokenize crowdedSource = .ok ts ∧
      ts.map Token.position = [1, 8, 10, 14, 16, 28, 29] ∧
      (ts.Pairwise fun t u => t.position < u.position ∧ t.position + t.text.length ≤ u.position) ∧
      (∀ t ∈ ts, (crowdedSource.toList.drop t.position).take t.text.length = t.text.toList) ∧
      (∀ i c, crowdedSource.toList[i]? = some c → (∀ t ∈ ts, ¬ t.Covers i) →
        Text.isBlank c = true) ∧
      ∀ t ∈ ts, tokenize t.text = .ok [{ t with position := 0 }]) ∧
    ∃ f, tokenize pointSource = .error f ∧ f.position = 10 ∧ 10 < pointSource.length ∧
      (∃ ts, tokenize "trueish >5" = .ok ts) ∧
      tokenize ".&&" = .error { f with position := 0 } := by
  constructor
  · have places : (tokenize crowdedSource).toOption.map (fun ts => ts.map Token.position) =
        some [1, 8, 10, 14, 16, 28, 29] := by decide +kernel
    obtain ⟨ts, read, places⟩ := Option.map_eq_some_iff.1 places
    have tokens := eq_ok_of_toOption read
    exact ⟨ts, tokens, places, (tokens_partition crowdedSource).1 ts tokens⟩
  · have point : tokenize pointSource = .error ⟨.unexpectedCharacter '.', 10⟩ := by decide +kernel
    exact ⟨_, point, rfl, (tokens_partition pointSource).2 _ point⟩

end ReleaseGate.Condition
