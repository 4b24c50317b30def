/-!
Running steps that may fail and that change a state: one step after another.
-/

namespace ReleaseGate

section

variable {σ ε α β : Type} {x : ExceptT ε (StateM σ) α} {f : α → ExceptT ε (StateM σ) β} {s s' : σ}

theorem run_bind (x : ExceptT ε (StateM σ) α) (f : α → ExceptT ε (StateM σ) β) (s : σ) :
    (x >>= f).run s =
      match x.run s with
      | (.ok a, s') => (f a).run s'
      | (.error e, s') => (.error e, s') := by
  rcases h : x.run s with ⟨r, s'⟩
  simp only [ExceptT.run, ExceptT.bind, ExceptT.mk, bind, StateT.bind] at h ⊢
  rw [h]
  cases r <;> rfl

theorem run_bind_ok {a : α} (h : x.run s = (.ok a, s')) : (x >>= f).run s = (f a).run s' := by
  rw [run_bind, h]

theorem run_bind_error {e : ε} (h : x.run s = (.error e, s')) :
    (x >>= f).run s = (.error e, s') := by
  rw [run_bind, h]

theorem run_bind_eq_ok {b : β} (h : (x >>= f).run s = (.ok b, s')) :
    ∃ a t, x.run s = (.ok a, t) ∧ (f a).run t = (.ok b, s') := by
  rw [run_bind] at h
  rcases ran : x.run s with ⟨r, t⟩
  rw [ran] at h
  cases r with
  | error e => cases h
  | ok a => exact ⟨a, t, rfl, h⟩

theorem run_lift (r : Except ε α) (s : σ) : (liftM r : ExceptT ε (StateM σ) α).run s = (r, s) := rfl

theorem run_pure (a : α) (s : σ) : (pure a : ExceptT ε (StateM σ) α).run s = (.ok a, s) := rfl

theorem run_get (s : σ) : (get : ExceptT ε (StateM σ) σ).run s = (.ok s, s) := rfl

theorem run_set (t s : σ) : (set t : ExceptT ε (StateM σ) PUnit).run s = (.ok ⟨⟩, t) := rfl

theorem run_monadLift {x : StateM σ α} (s : σ) :
    (ExceptT.lift x : ExceptT ε (StateM σ) α).run s = (.ok (x s).1, (x s).2) := rfl

end

theorem mapError_ok {ε δ α : Type} (f : ε → δ) (a : α) :
    (Except.ok a : Except ε α).mapError f = .ok a := rfl

theorem mapError_eq_ok {ε δ α : Type} {f : ε → δ} {x : Except ε α} {a : α} :
    x.mapError f = .ok a ↔ x = .ok a := by
  cases x with
  | error e => exact iff_of_false (fun h => nomatch h) (fun h => nomatch h)
  | ok b => rw [mapError_ok, Except.ok.injEq, Except.ok.injEq]

theorem bind_eq_ok {ε α β : Type} {x : Except ε α} {f : α → Except ε β} {b : β}
    (h : x >>= f = .ok b) : ∃ a, x = .ok a ∧ f a = .ok b := by
  cases x with
  | error e => cases h
  | ok a => exact ⟨a, rfl, h⟩

theorem mapError_eq_error {ε δ α : Type} {f : ε → δ} {x : Except ε α} {e : δ} :
    x.mapError f = .error e ↔ ∃ d, x = .error d ∧ f d = e := by
  cases x with
  | ok a =>
      refine iff_of_false (fun h => nomatch h) ?_
      rintro ⟨_, h, -⟩
      cases h
  | error d =>
      constructor
      · intro h
        exact ⟨d, rfl, Except.error.inj h⟩
      · rintro ⟨_, ⟨⟩, rfl⟩
        rfl

theorem bind_eq_error {ε α β : Type} {x : Except ε α} {f : α → Except ε β} {e : ε}
    (h : x >>= f = .error e) : x = .error e ∨ ∃ a, x = .ok a ∧ f a = .error e := by
  cases x with
  | error d =>
      cases h
      exact Or.inl rfl
  | ok a => exact Or.inr ⟨a, rfl, h⟩

theorem eq_ok_of_toOption {ε α : Type} {x : Except ε α} {a : α} (h : x.toOption = some a) :
    x = .ok a := by
  cases x with
  | error e => cases h
  | ok b => exact congrArg Except.ok (Option.some.inj h)

theorem eq_error_of_fault {ε α : Type} {x : Except ε α} {e : ε}
    (h : (match x with | .ok _ => none | .error e => some e) = some e) : x = .error e := by
  cases x with
  | error d => exact congrArg Except.error (Option.some.inj h)
  | ok a => cases h

theorem map_eq_ok {ε α β : Type} {f : α → β} {x : Except ε α} {b : β} (h : x.map f = .ok b) :
    ∃ a, x = .ok a ∧ f a = b := by
  cases x with
  | error e => cases h
  | ok a => exact ⟨a, rfl, Except.ok.inj h⟩

theorem map_eq_error {ε α β : Type} {f : α → β} {x : Except ε α} {e : ε}
    (h : x.map f = .error e) : x = .error e := by
  cases x with
  | error e =>
      cases h
      rfl
  | ok a => cases h

theorem mapM_eq_ok {ε α β : Type} {f : α → Except ε β} {g : α → β} {as : List α}
    (h : ∀ a ∈ as, f a = .ok (g a)) : as.mapM f = .ok (as.map g) := by
  induction as with
  | nil => rfl
  | cons a as ih =>
      rw [List.mapM_cons, h a List.mem_cons_self, ih fun b hb => h b (List.mem_cons_of_mem a hb)]
      rfl

theorem mem_of_mapM {ε α β : Type} {f : α → Except ε β} {as : List α} {bs : List β}
    (h : as.mapM f = .ok bs) : ∀ b ∈ bs, ∃ a ∈ as, f a = .ok b := by
  induction as generalizing bs with
  | nil =>
      cases h
      exact List.forall_mem_nil _
  | cons a as ih =>
      rw [List.mapM_cons] at h
      obtain ⟨b, first, h⟩ := bind_eq_ok h
      obtain ⟨later, others, h⟩ := bind_eq_ok h
      cases h
      refine List.forall_mem_cons.2 ⟨⟨a, List.mem_cons_self, first⟩, fun c hc => ?_⟩
      obtain ⟨d, hd, same⟩ := ih others c hc
      exact ⟨d, List.mem_cons_of_mem a hd, same⟩

/-- What is read back one by one is read back in a row. -/
theorem mapM_restores {ε α β : Type} {read : α → Except ε β} {write : β → α}
    (h : ∀ b, read (write b) = .ok b) (bs : List β) : (bs.map write).mapM read = .ok bs := by
  induction bs with
  | nil => rfl
  | cons b bs ih =>
      rw [List.map_cons, List.mapM_cons, h b, ih]
      rfl

/-- A step that does not fail and whose result is as wanted. -/
def Yields {ε α : Type} (x : Except ε α) (P : α → Prop) : Prop := ∃ a, x = .ok a ∧ P a

namespace Yields

variable {ε α β : Type} {x : Except ε α} {P : α → Prop} {Q : β → Prop}

theorem ok {a : α} (h : P a) : Yields (.ok a : Except ε α) P := ⟨a, rfl, h⟩

theorem bind {f : α → Except ε β} (hx : Yields x P) (hf : ∀ a, P a → Yields (f a) Q) :
    Yields (x >>= f) Q := by
  obtain ⟨a, rfl, ha⟩ := hx
  exact hf a ha

/-- A step whose result is known, and what comes after it. -/
theorem after {f : α → Except ε β} {a : α} (ended : x = .ok a) (next : Yields (f a) Q) :
    Yields (x >>= f) Q := by
  rw [ended]
  exact next

theorem mono {P' : α → Prop} (hx : Yields x P) (h : ∀ a, P a → P' a) : Yields x P' := by
  obtain ⟨a, rfl, ha⟩ := hx
  exact ⟨a, rfl, h a ha⟩

theorem ite {c : Prop} [Decidable c] {y : Except ε α} (hx : Yields x P) (hy : Yields y P) :
    Yields (if c then x else y) P := by
  split
  · exact hx
  · exact hy

theorem mapM {f : α → Except ε β} {as : List α} (h : ∀ a ∈ as, Yields (f a) Q) :
    Yields (as.mapM f) fun bs => ∀ b ∈ bs, Q b := by
  induction as with
  | nil => exact ok (List.forall_mem_nil _)
  | cons a as ih =>
      obtain ⟨first, rest⟩ := List.forall_mem_cons.1 h
      rw [List.mapM_cons]
      exact first.bind fun b hb => (ih rest).bind fun bs hbs =>
        ok (List.forall_mem_cons.2 ⟨hb, hbs⟩)

theorem holds (hx : Yields x P) {a : α} (ended : x = .ok a) : P a := by
  obtain ⟨b, same, hb⟩ := hx
  cases same.symm.trans ended
  exact hb

end Yields

/-- Two steps that do not fail and whose results stand in a relation. -/
def Alongside {ε α β : Type} (x : Except ε α) (y : Except ε β) (R : α → β → Prop) : Prop :=
  ∃ a b, x = .ok a ∧ y = .ok b ∧ R a b

namespace Alongside

variable {ε α β γ δ : Type} {x : Except ε α} {y : Except ε β} {R : α → β → Prop}
  {S : γ → δ → Prop}

theorem ok {a : α} {b : β} (h : R a b) : Alongside (.ok a : Except ε α) (.ok b) R :=
  ⟨a, b, rfl, rfl, h⟩

theorem bind {f : α → Except ε γ} {g : β → Except ε δ} (h : Alongside x y R)
    (next : ∀ a b, R a b → Alongside (f a) (g b) S) : Alongside (x >>= f) (y >>= g) S := by
  obtain ⟨a, b, rfl, rfl, related⟩ := h
  exact next a b related

theorem mono {R' : α → β → Prop} (h : Alongside x y R) (weaker : ∀ a b, R a b → R' a b) :
    Alongside x y R' := by
  obtain ⟨a, b, ended, ended', related⟩ := h
  exact ⟨a, b, ended, ended', weaker a b related⟩

theorem holds (h : Alongside x y R) {a : α} {b : β} (ended : x = .ok a) (ended' : y = .ok b) :
    R a b := by
  obtain ⟨a', b', same, same', related⟩ := h
  cases same.symm.trans ended
  cases same'.symm.trans ended'
  exact related

theorem refl {P : α → Prop} (hx : Yields x P) : Alongside x x fun a b => a = b ∧ P a := by
  obtain ⟨a, ended, ha⟩ := hx
  exact ⟨a, a, ended, ended, rfl, ha⟩

end Alongside

end ReleaseGate
