import ReleaseGate.Proofs.Condition.Mentions
import ReleaseGate.Proofs.Value.Places

/-!
Signal vectors that agree on what a condition mentions. Equal values of a signal's kind stand in the
same comparisons, and a parsed text compares only identifiers that the scan of it finds; so such
vectors give the text the same truth, or the same fault.
-/

namespace ReleaseGate

namespace Value

/-- The same value, or an equal one: an integer and a double may be one number. -/
def Equals (v w : Value) : Prop := v = w ∨ v.same w = true

theorem Equals.text {s : Text} {w : Value} (h : (Value.str s).Equals w) : w = .str s := by
  obtain rfl | same := h
  · rfl
  · cases w with
    | str t => exact congrArg Value.str (beq_iff_eq.1 same).symm
    | null | bool _ | int _ | float _ | list _ | object _ => cases same

theorem Equals.flag {a b : Bool} (h : (Value.bool a).Equals (.bool b)) : a = b := by
  obtain same | same := h
  · exact Value.bool.inj same
  · rw [same_of_places rfl rfl] at same
    have place := related_eq same
    revert place
    cases a <;> cases b <;> decide +kernel

theorem Equals.place? {v w : Value} (h : v.Equals w) (hv : v.fits .number = true)
    (hw : w.fits .number = true) : v.place? = w.place? := by
  obtain rfl | same := h
  · rfl
  · obtain ⟨p, hp⟩ := place?_of_number hv
    obtain ⟨q, hq⟩ := place?_of_number hw
    rw [same_of_places hp hq] at same
    rw [hp, hq, related_eq same]

/-- Two values that no comparison with a literal tells apart. -/
inductive Alternate (v w : Value) : Prop
  | same (h : v = w)
  | numbers (left : v.fits .number = true) (right : w.fits .number = true)
      (place : v.place? = w.place?)

/-- Equal signals of one kind are the same value, or the same number in two spellings. -/
theorem Equals.alternate {kind : SignalKind} {v w : Value} (h : v.Equals w)
    (hv : kind.problem? v = none) (hw : kind.problem? w = none) : v.Alternate w := by
  have number {u : Value} (hu : SignalKind.count.problem? u = none ∨
      SignalKind.rate.problem? u = none) : u.fits .number = true := by
    cases u with
    | int _ | float _ => rfl
    | null | bool _ | str _ | list _ | object _ =>
        exact hu.elim (fun h => nomatch h) (fun h => nomatch h)
  cases kind with
  | text =>
      cases v with
      | str s => exact .same h.text.symm
      | _ => cases hv
  | flag =>
      cases v with
      | bool a =>
          cases w with
          | bool b => exact .same (congrArg Value.bool h.flag)
          | _ => cases hw
      | _ => cases hv
  | count =>
      have left := number (Or.inl hv)
      have right := number (Or.inl hw)
      exact .numbers left right (h.place? left right)
  | rate =>
      have left := number (Or.inr hv)
      have right := number (Or.inr hw)
      exact .numbers left right (h.place? left right)

end Value

/-- A comparison with a number only asks for the place of the signal among the numbers. -/
theorem Operator.holds_of_places {v w : Value} (op : Operator) (x : Double)
    (hv : v.fits .number = true) (h : v.place? = w.place?) :
    op.holds v (.float x) = op.holds w (.float x) := by
  obtain ⟨p, hp⟩ := Value.place?_of_number hv
  have hq : w.place? = some p := h.symm.trans hp
  have hx : (Value.float x).place? = some x.point? := rfl
  cases op with
  | equal | notEqual =>
      simp only [Operator.holds, Value.same_of_places hp hx, Value.same_of_places hq hx]
  | greater | less =>
      simp only [Operator.holds, Value.before?_of_places hp hx, Value.before?_of_places hq hx,
        Value.before?_of_places hx hp, Value.before?_of_places hx hq]
  | atLeast | atMost =>
      simp only [Operator.holds, Value.notAfter?_of_places hp hx, Value.notAfter?_of_places hq hx,
        Value.notAfter?_of_places hx hp, Value.notAfter?_of_places hx hq]

theorem Literal.sameKind_number {v : Value} (hv : v.fits .number = true) (l : Literal) :
    l.sameKind v = true ↔ ∃ x, l = .number x := by
  cases v <;> cases l <;> simp_all [Value.fits, Literal.sameKind]

theorem Signal.identifier_of_ofIdentifier? {name : Text} {s : Signal}
    (h : ofIdentifier? name = some s) : s.identifier = name := by
  simpa using List.find?_some h

namespace SignalVector

def Complete (x : SignalVector) : Prop := ∀ s : Signal, s.kind.problem? (x s) = none

/-- Two vectors with equal values for the signals of the given identifiers. -/
def AgreeOn (names : List Text) (x y : SignalVector) : Prop :=
  ∀ s : Signal, s.identifier ∈ names → (x s).Equals (y s)

theorem AgreeOn.mono {names fewer : List Text} {x y : SignalVector} (h : x.AgreeOn names y)
    (sub : ∀ n ∈ fewer, n ∈ names) : x.AgreeOn fewer y :=
  fun s hs => h s (sub _ hs)

end SignalVector

section

variable {x y : SignalVector} (hx : x.Complete) (hy : y.Complete)
include hx hy

/-- A comparison reads one signal. -/
theorem Comparison.holds_congr {c : Comparison} (agree : x.AgreeOn [c.identifier] y) :
    c.holds x = c.holds y := by
  unfold Comparison.holds
  cases named : Signal.ofIdentifier? c.identifier with
  | none => rfl
  | some s =>
      have name := Signal.identifier_of_ofIdentifier? named
      have equals := agree s (List.mem_singleton.2 name)
      cases equals.alternate (hx s) (hy s) with
      | same same => simp only [same]
      | numbers left right place =>
          have kinds : c.literal.sameKind (x s) = c.literal.sameKind (y s) := by
            rw [Bool.eq_iff_iff, Literal.sameKind_number left, Literal.sameKind_number right]
          simp only [kinds]
          split
          · rename_i kind
            obtain ⟨z, literal⟩ := (Literal.sameKind_number right _).1 kind
            rw [literal]
            exact Operator.holds_of_places _ z left place
          · rfl

namespace Condition

/-- Vectors that agree on the identifiers of a condition give it one value. -/
theorem holds_congr {c : Condition} (agree : x.AgreeOn c.identifiers y) :
    c.holds x = c.holds y := by
  have factor : ∀ t ∈ c.terms, ∀ f ∈ t, f.holds x = f.holds y := fun t ht f hf => by
    refine Comparison.holds_congr hx hy (agree.mono fun n hn => ?_)
    obtain rfl := List.mem_singleton.1 hn
    exact List.mem_flatMap.2 ⟨t, ht, List.mem_map_of_mem hf⟩
  have term : ∀ t ∈ c.terms, (t.all fun f => f.holds x) = t.all fun f => f.holds y :=
    fun t ht => by
      rw [Bool.eq_iff_iff, List.all_eq_true, List.all_eq_true]
      exact forall₂_congr fun f hf => by rw [factor t ht f hf]
  rw [Condition.holds, Condition.holds, Bool.eq_iff_iff, List.any_eq_true, List.any_eq_true]
  exact exists_congr fun t => and_congr_right fun ht => by rw [term t ht]

end Condition

end

namespace Condition

variable {allowed : List Text} {size : Nat} {source : Text}

theorem identifiers_joinFirst (c : Comparison) (terms : List (List Comparison)) :
    (joinFirst c terms).flatMap (fun t => t.map Comparison.identifier) =
      c.identifier :: terms.flatMap fun t => t.map Comparison.identifier := by
  cases terms <;> rfl

/-- The identifiers of a sentence are those of its identifier tokens, in order. -/
theorem sentence_identifiers {ts : List Token} {terms : List (List Comparison)}
    (h : sentence allowed size ts = .ok terms) :
    (terms.flatMap fun t => t.map Comparison.identifier) =
      (ts.filterMap Token.mention?).map Prod.fst := by
  fun_induction sentence allowed size ts generalizing terms with
  | case6 name named known op operator compares lit v literal =>
      cases h
      simp [Token.mention?, Decidable.not_not.1 named, compares, literal]
      rfl
  | case7 name named known op operator compares lit v literal c next rest joins =>
      rename_i ih
      obtain ⟨later, parsed, rfl⟩ := map_eq_ok h
      rw [identifiers_joinFirst, ih parsed]
      simp [Token.mention?, Decidable.not_not.1 named, compares, literal, joins, c]
  | case8 name named known op operator compares lit v literal c next rest joins =>
      rename_i ih
      obtain ⟨later, parsed, rfl⟩ := map_eq_ok h
      rw [List.flatMap_cons, ih parsed]
      simp [Token.mention?, Decidable.not_not.1 named, compares, literal, joins, c]
  | _ => cases h

/-- A text that parses compares the identifiers that it mentions, and no others. -/
theorem parse_identifiers {c : Condition} (h : parse allowed source = .ok c) :
    c.identifiers = (mentions source).map Prod.fst := by
  rw [parse] at h
  obtain ⟨ts, tokens, h⟩ := bind_eq_ok h
  rw [mentions_of_tokens tokens]
  rw [ofTokens] at h
  split at h
  · cases h
  · obtain ⟨terms, parsed, rfl⟩ := map_eq_ok h
    exact sentence_identifiers parsed

/-- Vectors that agree on what a text mentions give it the same truth or the same fault. -/
theorem evaluate_congr {x y : SignalVector} (hx : x.Complete) (hy : y.Complete)
    (agree : x.AgreeOn ((mentions source).map Prod.fst) y) :
    evaluate source x = evaluate source y := by
  rw [evaluate, evaluate]
  cases parsed : parse Signal.identifiers source with
  | error fault => rfl
  | ok c =>
      rw [← parse_identifiers parsed] at agree
      exact congrArg Except.ok (holds_congr hx hy agree)

end Condition

end ReleaseGate
