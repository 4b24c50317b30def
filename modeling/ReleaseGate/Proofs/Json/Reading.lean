import ReleaseGate.Proofs.Json.FirstToken
import ReleaseGate.Value.Access

/-!
What the reader of values makes of a text. The values that it gives are well-formed, and a text that
is an object is none any more with something behind it.
-/

namespace ReleaseGate.Json

theorem readScaled_hashable {negative : Bool} {whole s : List Char} {v : Value}
    (h : readScaled negative whole s = some v) : v.hashable = true := by
  unfold readScaled at h
  dsimp only at h
  split at h
  · cases h
  · cases h
    rfl
  · cases h
    rfl
  · split at h
    · obtain ⟨e, -, rfl⟩ := Option.map_eq_some_iff.1 h
      rfl
    · cases h

theorem readNumber_hashable {s : List Char} {v : Value} (h : readNumber s = some v) :
    v.hashable = true := by
  unfold readNumber at h
  dsimp only at h
  split at h
  · cases h
  · cases h
  · exact readScaled_hashable h

theorem FirstToken.hashable {s rest : List CodePoint} {t : Token} (h : FirstToken s t rest)
    {v : Value} (same : t = .scalar v) : v.hashable = true := by
  cases h with
  | mark listed =>
      subst same
      simp [marks] at listed
  | string _ =>
      cases same
      rfl
  | word listed =>
      cases same
      have scalars : ∀ w ∈ words, w.2.hashable = true := by decide
      exact scalars _ listed
  | number _ number _ =>
      cases same
      exact readNumber_hashable number

inductive Lexes : List CodePoint → List Token → Prop
  | nil : Lexes [] []
  | space {c : CodePoint} {s : List CodePoint} {ts : List Token} : isSpace c = true → Lexes s ts →
      Lexes (c :: s) ts
  | token {c : CodePoint} {s rest : List CodePoint} {t : Token} {ts : List Token} :
    isSpace c = false →
      nextToken (c :: s) = some (t, rest) → Lexes rest ts → Lexes (c :: s) (t :: ts)

/-- The tokens of a text are its lexemes in order, with blanks between. -/
theorem lexes_of_tokens {s : List CodePoint} {ts : List Token} (h : tokens? s = some ts) :
    Lexes s ts := by
  fun_induction tokens? s generalizing ts with
  | case1 =>
      cases h
      exact .nil
  | case2 c s blank ih => exact .space blank (ih h)
  | case3 => cases h
  | case4 c s solid t rest next ih =>
      obtain ⟨later, found, rfl⟩ := Option.map_eq_some_iff.1 h
      exact .token (by simpa using solid) next (ih found)

theorem Lexes.hashable {s : List CodePoint} {ts : List Token} (h : Lexes s ts) :
    ∀ v, .scalar v ∈ ts → v.hashable = true := by
  induction h with
  | nil => exact fun _ h => nomatch h
  | space _ _ ih => exact ih
  | token _ next _ ih =>
      intro v hv
      obtain rfl | hv := List.mem_cons.1 hv
      · exact (firstToken_of_next next).hashable rfl
      · exact ih v hv

theorem wellFormed_of_hashable {v : Value} (h : v.hashable = true) : v.WellFormed := by
  cases v with
  | list _ | object _ => cases h
  | _ => trivial

def Frame.WellFormed : Frame → Prop
  | .items before => ∀ v ∈ before, v.WellFormed
  | .member before _ => (Value.object before).WellFormed

def State.WellFormed : State → Prop
  | .value stack | .firstItem stack | .firstName stack => ∀ f ∈ stack, f.WellFormed
  | .name before stack | .colon before _ stack =>
      (Value.object before).WellFormed ∧ ∀ f ∈ stack, f.WellFormed
  | .complete v stack => v.WellFormed ∧ ∀ f ∈ stack, f.WellFormed

theorem startValue_wellFormed {stack : List Frame} {t : Token} {s : State}
    (scalar : ∀ v, t = .scalar v → v.WellFormed) (h : startValue stack t = some s)
    (wellFormed : ∀ f ∈ stack, f.WellFormed) : s.WellFormed := by
  unfold startValue at h
  split at h
  · cases h
    exact ⟨scalar _ rfl, wellFormed⟩
  · cases h
    exact wellFormed
  · cases h
    exact wellFormed
  · cases h

theorem empty_wellFormed : (Value.object []).WellFormed :=
  Value.wellFormed_object.2 ⟨List.nodup_nil, List.forall_mem_nil _⟩

/-- Reading a token builds no object with a name twice. -/
theorem step_wellFormed {s s' : State} {t : Token} (scalar : ∀ v, t = .scalar v → v.WellFormed)
    (h : step s t = some s') (wellFormed : s.WellFormed) : s'.WellFormed := by
  unfold step at h
  split at h
  case h_1 => exact startValue_wellFormed scalar h wellFormed
  case h_2 =>
    cases h
    exact ⟨Value.wellFormed_list.2 (List.forall_mem_nil _), wellFormed⟩
  case h_3 =>
    exact startValue_wellFormed scalar h
      (List.forall_mem_cons.2 ⟨List.forall_mem_nil _, wellFormed⟩)
  case h_4 =>
    cases h
    exact ⟨empty_wellFormed, wellFormed⟩
  case h_5 =>
    cases h
    exact ⟨empty_wellFormed, wellFormed⟩
  case h_6 =>
    cases h
    exact wellFormed
  case h_7 =>
    cases h
    exact List.forall_mem_cons.2 wellFormed
  case h_8 =>
    cases h
    obtain ⟨value, stack⟩ := wellFormed
    obtain ⟨before, outer⟩ := List.forall_mem_cons.1 stack
    exact List.forall_mem_cons.2 ⟨List.forall_mem_cons.2 ⟨value, before⟩, outer⟩
  case h_9 =>
    cases h
    obtain ⟨value, stack⟩ := wellFormed
    obtain ⟨before, outer⟩ := List.forall_mem_cons.1 stack
    have items := List.forall_mem_cons.2 ⟨value, before⟩
    exact ⟨Value.wellFormed_list.2 fun v hv => items v (List.mem_reverse.1 hv), outer⟩
  case h_10 | h_11 =>
    cases h
    obtain ⟨value, stack⟩ := wellFormed
    obtain ⟨before, outer⟩ := List.forall_mem_cons.1 stack
    exact ⟨Value.putMember_wellFormed value before, outer⟩
  case h_12 => cases h

theorem run_wellFormed {s s' : State} {ts : List Token}
    (scalar : ∀ v, .scalar v ∈ ts → v.WellFormed)
    (h : run s ts = some s') (wellFormed : s.WellFormed) : s'.WellFormed := by
  induction ts generalizing s with
  | nil =>
      cases h
      exact wellFormed
  | cons t ts ih =>
      obtain ⟨next, stepped, ran⟩ := Option.bind_eq_some_iff.1 h
      refine ih (fun v hv => scalar v (List.mem_cons_of_mem t hv)) ran ?_
      exact step_wellFormed (fun v same => scalar v (same ▸ List.mem_cons_self)) stepped wellFormed

theorem run_of_read {s : List CodePoint} {v : Value} (h : read? s = some v) :
    ∃ ts, tokens? s = some ts ∧ run (.value []) ts = some (.complete v []) := by
  unfold read? at h
  split at h
  · rename_i found
    cases h
    exact Option.bind_eq_some_iff.1 found
  · cases h

/-- What is read has distinct names in every object: a later member replaces an earlier one. -/
theorem read?_wellFormed {s : List CodePoint} {v : Value} (h : read? s = some v) :
    v.WellFormed := by
  obtain ⟨ts, tokens, ran⟩ := run_of_read h
  have scalar : ∀ w, .scalar w ∈ ts → w.WellFormed :=
    fun w hw => wellFormed_of_hashable ((lexes_of_tokens tokens).hashable w hw)
  exact (run_wellFormed scalar ran (List.forall_mem_nil _)).1

theorem Lexes.none {ts : List Token} (h : Lexes [] ts) : ts = [] := by
  cases h
  rfl

theorem Lexes.blank {s : List CodePoint} (h : Lexes s []) : ∀ c ∈ s, isSpace c = true := by
  generalize none : ([] : List Token) = ts at h
  induction h with
  | nil => exact List.forall_mem_nil _
  | space blank _ ih => exact List.forall_mem_cons.2 ⟨blank, ih none⟩
  | token => cases none

/-- A text that does not end in a scalar goes on with the lexemes of what stands behind it. -/
theorem Lexes.append {s : List CodePoint} {ts : List Token} (h : Lexes s ts)
    (closed : ∀ v, ts.getLast? ≠ some (.scalar v)) (more : List CodePoint) :
    tokens? (s ++ more) = (tokens? more).map (ts ++ ·) := by
  induction h with
  | nil => simp
  | space blank _ ih => exact (tokens?_space blank _).trans (ih closed)
  | @token c s rest t ts solid next later ih =>
      have apart : rest = [] → ∀ v, t ≠ .scalar v := by
        rintro rfl v rfl
        rw [later.none] at closed
        exact closed v rfl
      have tail : ∀ v, ts.getLast? ≠ some (.scalar v) := by
        intro v last
        exact closed v (by rw [List.getLast?_cons, last, Option.getD_some])
      have ahead := ((firstToken_of_next next).append apart more).next
      rw [List.cons_append] at ahead ⊢
      rw [tokens?_next solid ahead, ih tail, Option.map_map]
      rfl

/-- A run over two stretches of tokens is one after the other. -/
theorem run_append (s : State) (ts us : List Token) :
    run s (ts ++ us) = (run s ts).bind fun s => run s us := by
  induction ts generalizing s with
  | nil => rfl
  | cons t ts ih =>
      simp only [List.cons_append, run, Option.bind_assoc]
      exact congrArg _ (funext ih)

/-- A scalar completes nothing but itself. -/
theorem step_scalar {s : State} {w v : Value} {stack : List Frame}
    (h : step s (.scalar w) = some (.complete v stack)) : v = w := by
  unfold step startValue at h
  grind

/-- The text of an object is not the text of a value any more when something stands behind it. -/
theorem read?_beyond {s more : List CodePoint} {ms : List (Text × Value)}
    (h : read? s = some (.object ms)) (solid : ∃ c ∈ more, isSpace c = false) :
    read? (s ++ more) = none := by
  obtain ⟨ts, tokens, ran⟩ := run_of_read h
  have lexes := lexes_of_tokens tokens
  have closed : ∀ v, ts.getLast? ≠ some (.scalar v) := by
    intro v last
    obtain ⟨before, rfl⟩ := List.getLast?_eq_some_iff.1 last
    rw [run_append] at ran
    obtain ⟨s, -, rest⟩ := Option.bind_eq_some_iff.1 ran
    obtain ⟨after, stepped, same⟩ := Option.bind_eq_some_iff.1 rest
    cases same
    have scalar := lexes.hashable v (List.mem_append_right before List.mem_cons_self)
    rw [← step_scalar stepped] at scalar
    cases scalar
  rw [read?, lexes.append closed]
  cases behind : tokens? more with
  | none => rfl
  | some us =>
      cases us with
      | nil =>
          obtain ⟨c, hc, ink⟩ := solid
          have space := (lexes_of_tokens behind).blank c hc
          rw [ink] at space
          cases space
      | cons u us =>
          have past : run (.value []) (ts ++ u :: us) = none := by
            rw [run_append, ran]
            rfl
          simp only [Option.map_some, Option.bind_some, past]

end ReleaseGate.Json
