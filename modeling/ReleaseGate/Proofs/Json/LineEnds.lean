import ReleaseGate.Proofs.Json.Reading
import ReleaseGate.Proofs.Text.Lines

/-!
Line ends in JSON text. They stand between lexemes only, so a text with its line ends unified has
the lexemes, and the value, of the text itself.
-/

namespace ReleaseGate.Json

def Unbroken (l : List CodePoint) : Prop := ∀ c ∈ l, c ≠ '\r' ∧ c ≠ '\n'

theorem unbroken_cons {c : CodePoint} {l : List CodePoint} :
    Unbroken (c :: l) ↔ (c ≠ '\r' ∧ c ≠ '\n') ∧ Unbroken l :=
  List.forall_mem_cons

theorem unified_cons {c : CodePoint} (plain : c ≠ '\r') (s : List CodePoint) :
    Text.unifyLineEnds (c :: s) = c :: Text.unifyLineEnds s := by
  rw [Text.unifyLineEnds, if_neg plain]
  exact fun _ same => absurd same plain

theorem unified_append {l : List CodePoint} (h : Unbroken l) (s : List CodePoint) :
    Text.unifyLineEnds (l ++ s) = l ++ Text.unifyLineEnds s := by
  induction l with
  | nil => rfl
  | cons c l ih =>
      obtain ⟨plain, rest⟩ := unbroken_cons.1 h
      rw [List.cons_append, unified_cons plain.1, ih rest, List.cons_append]

/-- What a unified text begins with, free of line ends, the text itself begins with. -/
theorem of_unified_append {l s rest : List CodePoint} (h : Unbroken l)
    (unified : Text.unifyLineEnds s = l ++ rest) :
    ∃ later, s = l ++ later ∧ Text.unifyLineEnds later = rest := by
  induction l generalizing s with
  | nil => exact ⟨s, rfl, unified⟩
  | cons c l ih =>
      obtain ⟨plain, inner⟩ := unbroken_cons.1 h
      fun_cases Text.unifyLineEnds s with
      | case1 => cases unified
      | case2 s =>
          rw [Text.unifyLineEnds] at unified
          exact absurd (List.cons.inj unified).1.symm plain.2
      | case3 d s pair =>
          rw [Text.unifyLineEnds] at unified
          · obtain ⟨same, tail⟩ := List.cons.inj unified
            obtain ⟨later, rfl, rest⟩ := ih inner tail
            split at same
            · exact absurd same.symm plain.2
            · exact ⟨later, congrArg (· :: (l ++ later)) same, rest⟩
          · exact pair

/-- Joining line ends does not change whether a number may end here. -/
theorem follows_unified {s : List CodePoint} : Follows (Text.unifyLineEnds s) ↔ Follows s := by
  fun_cases Text.unifyLineEnds s with
  | case1 => exact Iff.rfl
  | case2 s => exact iff_of_true (follows_cons (by decide) _) (follows_cons (by decide) _)
  | case3 c s pair =>
      by_cases return_ : c = '\r'
      · subst return_
        exact iff_of_true (follows_cons (by decide) _) (follows_cons (by decide) _)
      · rw [if_neg return_]
        rfl

theorem unbroken_escaped {a b c d : CodePoint} {n : Nat} (h : codeUnit? a b c d = some n)
    {l : List CodePoint} (hl : Unbroken l) : Unbroken ('\\' :: 'u' :: a :: b :: c :: d :: l) := by
  have digit {e : CodePoint} (he : hexValue? e ≠ none) : e ≠ '\r' ∧ e ≠ '\n' :=
    ⟨fun same => he (same ▸ by decide), fun same => he (same ▸ by decide)⟩
  simp only [codeUnit?, Option.bind_eq_bind, Option.bind_eq_some_iff] at h
  obtain ⟨_, ha, _, hb, _, hc, _, hd, -⟩ := h
  simp only [unbroken_cons]
  exact ⟨by decide, by decide, digit (by simp [ha]), digit (by simp [hb]), digit (by simp [hc]),
    digit (by simp [hd]), hl⟩

theorem unbroken_letter {c d : CodePoint} (h : shortEscape? c = some d) : c ≠ '\r' ∧ c ≠ '\n' :=
  ⟨fun same => (nomatch same ▸ h), fun same => (nomatch same ▸ h)⟩

theorem Alone.of_append {n : Nat} {l rest : List CodePoint} (alone : Alone n (l ++ rest)) :
    Alone n l :=
  fun high a b c d later same => alone high a b c d (later ++ rest) (by rw [same]; rfl)

/-- A string takes an unbroken stretch off the text, which is a string whatever stands behind. -/
theorem StringLiteral.stretch {s t rest : List CodePoint} (h : StringLiteral s t rest) :
    ∃ l, s = l ++ rest ∧ Unbroken l ∧ StringLiteral l t [] := by
  induction h with
  | quote rest => exact ⟨['"'], rfl, by simp [Unbroken], .quote []⟩
  | @plain c _ _ _ quote backslash control _ ih =>
      obtain ⟨l, rfl, unbroken, whole⟩ := ih
      have inLine : c ≠ '\r' ∧ c ≠ '\n' :=
        ⟨fun same => control (same ▸ by decide), fun same => control (same ▸ by decide)⟩
      exact ⟨_, rfl, unbroken_cons.2 ⟨inLine, unbroken⟩, .plain quote backslash control whole⟩
  | short letter escape _ ih =>
      obtain ⟨l, rfl, unbroken, whole⟩ := ih
      refine ⟨_, rfl, ?_, .short letter escape whole⟩
      simp only [unbroken_cons]
      exact ⟨by decide, unbroken_letter escape, unbroken⟩
  | alone unit single _ ih =>
      obtain ⟨l, rfl, unbroken, whole⟩ := ih
      exact ⟨_, rfl, unbroken_escaped unit unbroken, .alone unit single.of_append whole⟩
  | pair first paired second ending _ ih =>
      obtain ⟨l, rfl, unbroken, whole⟩ := ih
      exact ⟨_, rfl, unbroken_escaped first (unbroken_escaped second unbroken),
        .pair first paired second ending whole⟩

theorem unbroken_number {l : List CodePoint} (h : ∀ c ∈ l, isNumberChar c = true) : Unbroken l := by
  refine fun c hc => ⟨?_, ?_⟩ <;>
  · rintro rfl
    exact absurd (h _ hc) (by decide)

theorem unbroken_word {w : List Char × Value} (hw : w ∈ words) : Unbroken (w.1.map .char) := by
  have plain : words.all (fun w => w.1.all fun c => c != '\r' && c != '\n') = true := by decide
  refine List.forall_mem_map.2 fun c hc => ?_
  simpa using List.all_eq_true.1 (List.all_eq_true.1 plain w hw) c hc

/-- A token is an unbroken stretch of its text, and is the same token whatever stands behind it
that could not belong to a number. -/
theorem FirstToken.stretch {s rest : List CodePoint} {t : Token} (h : FirstToken s t rest) :
    ∃ l, s = l ++ rest ∧ Unbroken l ∧
      ∀ more, (Follows rest → Follows more) → FirstToken (l ++ more) t more := by
  cases h with
  | @mark c _ listed =>
      have plain : ∀ p ∈ marks, p.1 ≠ '\r' ∧ p.1 ≠ '\n' := by simp [marks]
      exact ⟨[c], rfl, List.forall_mem_singleton.2 (plain _ listed), fun more _ =>
        .mark listed more⟩
  | string literal =>
      obtain ⟨l, rfl, unbroken, whole⟩ := literal.stretch
      exact ⟨'"' :: l, rfl, unbroken_cons.2 ⟨by decide, unbroken⟩, fun more _ =>
        .string (whole.append more)⟩
  | word listed => exact ⟨_, rfl, unbroken_word listed, fun more _ => .word listed more⟩
  | number chars number follows =>
      exact ⟨_, rfl, unbroken_number chars, fun more still =>
        .number chars number (still follows)⟩

theorem tokens?_stuck {c : CodePoint} {s : List CodePoint} (hc : isSpace c = false)
    (stuck : nextToken (c :: s) = none) : tokens? (c :: s) = none := by
  rw [tokens?, if_neg (by simp [hc])]
  split
  · rfl
  · rename_i next
    rw [stuck] at next
    cases next

theorem unified_solid {c : CodePoint} (hc : isSpace c = false) (s : List CodePoint) :
    Text.unifyLineEnds (c :: s) = c :: Text.unifyLineEnds s :=
  unified_cons (fun same => absurd (same ▸ hc) (by decide)) s

theorem tokens?_unified_space {c : CodePoint} (hc : isSpace c = true) {s : List CodePoint}
    (h : tokens? (Text.unifyLineEnds s) = tokens? s) :
    tokens? (Text.unifyLineEnds (c :: s)) = tokens? s := by
  by_cases return_ : c = '\r'
  · subst return_
    by_cases feed : ∃ later, s = .char '\n' :: later
    · -- both ends of the pair become the one line feed that is at the head already
      obtain ⟨later, rfl⟩ := feed
      rw [unified_cons (by decide)] at h
      rw [Text.unifyLineEnds, h]
    · rw [Text.unifyLineEnds, if_pos rfl, tokens?_space (by decide), h]
      exact fun later _ same => feed ⟨later, same⟩
  · rw [unified_cons return_, tokens?_space hc, h]

/-- A text with unified line ends has the lexemes of the text itself. -/
theorem tokens?_unified (s : List CodePoint) : tokens? (Text.unifyLineEnds s) = tokens? s := by
  fun_induction tokens? s with
  | case1 => rw [Text.unifyLineEnds, tokens?_nil]
  | case2 c s blank ih => exact tokens?_unified_space blank ih
  | case3 c s solid stuck =>
      have hc : isSpace c = false := by simpa using solid
      rw [unified_solid hc]
      refine tokens?_stuck hc ?_
      cases next : nextToken (c :: Text.unifyLineEnds s) with
      | none => rfl
      | some found =>
          -- a lexeme of the unified text would be one of the text
          obtain ⟨t, rest⟩ := found
          obtain ⟨l, text, unbroken, lexeme⟩ := (firstToken_of_next next).stretch
          rw [← unified_solid hc] at text
          obtain ⟨later, same, rfl⟩ := of_unified_append unbroken text
          rw [same, (lexeme later follows_unified.1).next] at stuck
          cases stuck
  | case4 c s solid t rest next ih =>
      have hc : isSpace c = false := by simpa using solid
      obtain ⟨l, text, unbroken, lexeme⟩ := (firstToken_of_next next).stretch
      have unified := (lexeme (Text.unifyLineEnds rest) follows_unified.2).next
      rw [← unified_append unbroken, ← text, unified_solid hc] at unified
      rw [unified_solid hc, tokens?_next hc unified, ih]

/-- Reading a text does not depend on how its lines end. -/
theorem read?_unified (s : List CodePoint) : read? (Text.unifyLineEnds s) = read? s := by
  rw [read?, read?, tokens?_unified]

end ReleaseGate.Json
