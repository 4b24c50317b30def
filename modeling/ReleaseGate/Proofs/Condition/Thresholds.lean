import ReleaseGate.Proofs.Condition.Agreement

/-!
Thresholds. A condition that compares a signal only with `>` and `>=` stays true as the signal
grows, and one that compares it only with `<` and `<=` stays true as it falls. Numbers go by their
exact places, be they integers or doubles; with a literal of another kind none of these operators
holds.
-/

namespace ReleaseGate

namespace Value

variable {r : Point → Point → Bool} {p q : Point}

theorem related_ascending (moves : ∀ o, r o p = true → r o q = true) (o : Option Point) :
    related r o (some p) = true → related r o (some q) = true := by
  cases o with
  | none => exact id
  | some o => exact moves o

theorem related_descending (moves : ∀ o, r q o = true → r p o = true) (o : Option Point) :
    related r (some q) o = true → related r (some p) o = true := by
  cases o with
  | none => exact id
  | some o => exact moves o

end Value

namespace Operator

/-- The operators that a number can only come to satisfy as it grows. -/
def floors : List Operator := [.greater, .atLeast]

/-- The operators that a number can only come to satisfy as it falls. -/
def ceilings : List Operator := [.less, .atMost]

variable {v w : Value} (hv : v.fits .number = true) (hw : w.fits .number = true)
  (le : v.notAfter? w = some true)
include hv hw le

theorem holds_of_floor {op : Operator} (listed : op ∈ floors) (x : Double)
    (h : op.holds v (.float x) = true) : op.holds w (.float x) = true := by
  obtain ⟨p, q, hp, hq, ascends⟩ := Value.exists_points hv hw le
  have hx : (Value.float x).place? = some x.point? := rfl
  cases op with
  | greater =>
      rw [holds, Value.before?_of_places hx hp] at h
      rw [holds, Value.before?_of_places hx hq]
      exact Value.related_ascending (fun _ above => Point.lt_of_lt_of_le above ascends) x.point? h
  | atLeast =>
      rw [holds, Value.notAfter?_of_places hx hp] at h
      rw [holds, Value.notAfter?_of_places hx hq]
      exact Value.related_ascending (fun _ above => Point.le_trans above ascends) x.point? h
  | equal | notEqual | less | atMost => simp [floors] at listed

theorem holds_of_ceiling {op : Operator} (listed : op ∈ ceilings) (x : Double)
    (h : op.holds w (.float x) = true) : op.holds v (.float x) = true := by
  obtain ⟨p, q, hp, hq, ascends⟩ := Value.exists_points hv hw le
  have hx : (Value.float x).place? = some x.point? := rfl
  cases op with
  | less =>
      rw [holds, Value.before?_of_places hq hx] at h
      rw [holds, Value.before?_of_places hp hx]
      exact Value.related_descending (fun _ below => Point.lt_of_le_of_lt ascends below) x.point? h
  | atMost =>
      rw [holds, Value.notAfter?_of_places hq hx] at h
      rw [holds, Value.notAfter?_of_places hp hx]
      exact Value.related_descending (fun _ below => Point.le_trans ascends below) x.point? h
  | equal | notEqual | greater | atLeast => simp [ceilings] at listed

end Operator

/-- Vectors that agree on all signals but one, which is a number in both, in the second one no
smaller than in the first. Not-a-number is in no order, so it is neither of the two. -/
structure SignalVector.RaisedAt (s : Signal) (x y : SignalVector) : Prop where
  others : ∀ t, t ≠ s → x t = y t
  left : (x s).fits .number = true
  right : (y s).fits .number = true
  upTo : (x s).notAfter? (y s) = some true

/-- A condition that compares a signal with no other operators than the listed ones. -/
def Condition.ComparesBy (ops : List Operator) (s : Signal) (c : Condition) : Prop :=
  ∀ t ∈ c.terms, ∀ f ∈ t, f.identifier = s.identifier → f.operator ∈ ops

instance (ops : List Operator) (s : Signal) (c : Condition) : Decidable (c.ComparesBy ops s) :=
  inferInstanceAs (Decidable (∀ t ∈ c.terms, ∀ f ∈ t, _ → _))

section

variable {s : Signal} {x y : SignalVector} (others : ∀ t, t ≠ s → x t = y t)
  (left : (x s).fits .number = true) (right : (y s).fits .number = true)
include others left right

/-- A comparison stays true from vector to vector if it does for the one number in which they
differ. With a literal of another kind only `!=` is true, and then of both numbers. -/
theorem Comparison.holds_of_others {f : Comparison}
    (moves : f.identifier = s.identifier → f.operator ≠ .notEqual ∧
      ∀ z, f.operator.holds (x s) (.float z) = true → f.operator.holds (y s) (.float z) = true)
    (h : f.holds x = true) : f.holds y = true := by
  unfold Comparison.holds at h ⊢
  cases named : Signal.ofIdentifier? f.identifier with
  | none =>
      rw [named] at h
      cases h
  | some t =>
      simp only [named] at h ⊢
      by_cases same : t = s
      · subst same
        obtain ⟨unequal, moves⟩ := moves (Signal.identifier_of_ofIdentifier? named).symm
        split at h
        · rename_i kind
          obtain ⟨z, literal⟩ := (Literal.sameKind_number left _).1 kind
          rw [if_pos ((Literal.sameKind_number right _).2 ⟨z, literal⟩), literal]
          rw [literal] at h
          exact moves z h
        · exact absurd (beq_iff_eq.1 h) unequal
      · rw [← others t same]
        exact h

/-- A condition keeps its value when one signal moves the way all its comparisons allow. -/
theorem Condition.holds_of_others {c : Condition} {ops : List Operator}
    (compares : c.ComparesBy ops s) (unequal : .notEqual ∉ ops)
    (moves : ∀ op ∈ ops, ∀ z,
      op.holds (x s) (.float z) = true → op.holds (y s) (.float z) = true)
    (h : c.holds x = true) : c.holds y = true := by
  obtain ⟨t, ht, all⟩ := List.any_eq_true.1 h
  refine List.any_eq_true.2 ⟨t, ht, List.all_eq_true.2 fun f hf => ?_⟩
  refine Comparison.holds_of_others others left right (fun named => ?_)
    (List.all_eq_true.1 all f hf)
  have listed := compares t ht f hf named
  exact ⟨fun same => unequal (same ▸ listed), moves f.operator listed⟩

end

namespace Condition

/-- A text that is a condition has a truth for every vector. Of two vectors that differ in one
number, it is true for the one with the greater number if it is for the other one, provided that it
compares this number only with `>` and `>=`; and the other way round if only with `<` and `<=`. -/
theorem thresholds_monotone {source : Text} {c : Condition}
    (parsed : parse Signal.identifiers source = .ok c) {s : Signal} {x y : SignalVector}
    (raised : x.RaisedAt s y) :
    ∃ a b, evaluate source x = .ok a ∧ evaluate source y = .ok b ∧
      (c.ComparesBy Operator.floors s → a = true → b = true) ∧
      (c.ComparesBy Operator.ceilings s → b = true → a = true) := by
  have truth : ∀ z, evaluate source z = .ok (c.holds z) := fun z => by
    rw [evaluate, parsed]
    rfl
  obtain ⟨others, left, right, upTo⟩ := raised
  refine ⟨c.holds x, c.holds y, truth x, truth y, fun compares => ?_, fun compares => ?_⟩
  · exact holds_of_others others left right compares (by decide) fun _ listed =>
      Operator.holds_of_floor left right upTo listed
  · exact holds_of_others (fun t ht => (others t ht).symm) right left compares (by decide)
      fun _ listed => Operator.holds_of_ceiling left right upTo listed

def thresholdSource : Text :=
  "canary.latency_delta > 9007199254740993 && canary.error_rate <= 0.1 || ci.status == \"skipped\""

def quietSignals (latency rate : Value) : SignalVector
  | .ciStatus => .str "success"
  | .criticalCount | .highCount => .int 0
  | .infraChange | .dbMigration | .authChange | .secretsChange | .dependencyChange => .bool false
  | .errorRate => rate
  | .latencyDelta => latency

/-- The integer of the text lies above the double that the text is read as, and the double of the
second vector above the integer. -/
theorem thresholds_monotone_rounded :
    let tenth := Value.float (.ofQuotient 1 10)
    let slow := quietSignals (.int 9007199254740993) tenth
    let slower := quietSignals (.float (.ofInt 9007199254740994)) tenth
    let calmer := quietSignals (.int 9007199254740993) (.int 0)
    ∃ c, parse Signal.identifiers thresholdSource = .ok c ∧
      slow.RaisedAt .latencyDelta slower ∧ calmer.RaisedAt .errorRate slow ∧
      c.ComparesBy Operator.floors .latencyDelta ∧ c.ComparesBy Operator.ceilings .errorRate ∧
      evaluate thresholdSource slow = .ok true ∧ evaluate thresholdSource slower = .ok true ∧
      evaluate thresholdSource calmer = .ok true := by
  intro tenth slow slower calmer
  have read : (parse Signal.identifiers thresholdSource).toOption.map (fun c =>
      decide (c.ComparesBy Operator.floors .latencyDelta ∧
        c.ComparesBy Operator.ceilings .errorRate)) = some true := by decide +kernel
  obtain ⟨c, parsed, compares⟩ := Option.map_eq_some_iff.1 read
  obtain ⟨floor, ceiling⟩ := of_decide_eq_true compares
  have parsed := eq_ok_of_toOption parsed
  have holds : (evaluate thresholdSource slow).toOption = some true := by decide +kernel
  have holds := eq_ok_of_toOption holds
  have raised : slow.RaisedAt .latencyDelta slower :=
    ⟨fun t ht => by cases t <;> first | rfl | exact absurd rfl ht, rfl, rfl, by decide +kernel⟩
  have raised' : calmer.RaisedAt .errorRate slow :=
    ⟨fun t ht => by cases t <;> first | rfl | exact absurd rfl ht, rfl, rfl, by decide +kernel⟩
  obtain ⟨a, b, first, second, rises, -⟩ := thresholds_monotone parsed raised
  obtain ⟨a', b', first', second', -, falls⟩ := thresholds_monotone parsed raised'
  cases holds.symm.trans first
  cases holds.symm.trans second'
  rw [rises floor rfl] at second
  rw [falls ceiling rfl] at first'
  exact ⟨c, parsed, raised, raised', floor, ceiling, holds, second, first'⟩

end Condition

end ReleaseGate
