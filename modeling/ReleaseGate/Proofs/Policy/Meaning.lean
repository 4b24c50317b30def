import ReleaseGate.Proofs.Policy.Admission

/-!
What a policy means, against its evaluation. The rules are examined up to the first one that stops
the examination; those whose conditions hold are the matches, and the earliest match of the greatest
severity decides.
-/

namespace ReleaseGate

namespace Rule

def reading (r : Rule) : Except Condition.Fault Condition :=
  Condition.parse Signal.identifiers r.condition.text

/-- Whether the condition parses and holds. -/
def Fires (r : Rule) (x : SignalVector) : Prop := ∃ c, r.reading = .ok c ∧ c.holds x = true

/-- Whether the examination ends with the rule: its condition does not parse, or it blocks. -/
def Stops (r : Rule) (x : SignalVector) : Prop :=
  (∃ fault, r.reading = .error fault) ∨ r.severity = .block ∧ r.Fires x

instance (r : Rule) (x : SignalVector) : Decidable (r.Fires x) :=
  match h : r.reading with
  | .ok c => decidable_of_iff (c.holds x = true) (by simp [Fires, h])
  | .error _ => isFalse (by simp [Fires, h])

instance (r : Rule) (x : SignalVector) : Decidable (r.Stops x) :=
  match h : r.reading with
  | .ok c => decidable_of_iff (r.severity = .block ∧ r.Fires x) (by simp [Stops, h])
  | .error fault => isTrue (Or.inl ⟨fault, h⟩)

end Rule

namespace Policy

/-- The rules up to the first that stops the examination, that one included. -/
def examined (x : SignalVector) (rules : List Rule) : List Rule :=
  (rules.takeWhile fun r => ¬ r.Stops x) ++ (rules.find? fun r => r.Stops x).toList

variable {x : SignalVector}

theorem examined_stops {r : Rule} (h : r.Stops x) (rs : List Rule) :
    examined x (r :: rs) = [r] := by
  simp [examined, h]

theorem examined_goes {r : Rule} (h : ¬ r.Stops x) (rs : List Rule) :
    examined x (r :: rs) = r :: examined x rs := by
  simp [examined, h]

theorem holds_reading {r : Rule} (text : ∃ s, r.condition = .str s) (x : SignalVector) :
    r.holds x =
      match r.reading with
      | .ok c => .ok (c.holds x)
      | .error fault => .error (.invalidPolicy r.id fault.cause.message (some fault.position)) := by
  obtain ⟨s, text⟩ := text
  rw [Rule.holds, Rule.reading, text]
  simp only [Condition.evaluate, Value.text]
  cases Condition.parse Signal.identifiers s <;> rfl

theorem reading_of_goes {r : Rule} (h : ¬ r.Stops x) : ∃ c, r.reading = .ok c := by
  cases reading : r.reading with
  | ok c => exact ⟨c, rfl⟩
  | error fault => exact absurd (Or.inl ⟨fault, reading⟩) h

/-- A rule whose condition parses fires exactly if the condition holds. -/
theorem fires_iff {r : Rule} {c : Condition} (h : r.reading = .ok c) :
    r.Fires x ↔ c.holds x = true := by
  simp [Rule.Fires, h]

/-- What evaluation makes of a rule that does not stop the examination. -/
theorem matching_goes {r : Rule} (text : ∃ s, r.condition = .str s) (h : ¬ r.Stops x)
    (rs : List Rule) :
    matching x (r :: rs) =
      (matching x rs).map fun ms => if r.Fires x then r.toMatch :: ms else ms := by
  obtain ⟨c, reading⟩ := reading_of_goes h
  have fires := fires_iff (x := x) reading
  rw [matching, holds_reading text, reading]
  by_cases fire : r.Fires x
  · have lesser : r.severity ≠ .block := fun block => h (Or.inr ⟨block, fire⟩)
    simp only [fires.1 fire, if_pos fire, if_neg lesser, if_true, bind, Except.bind]
    cases matching x rs <;> rfl
  · have silent : c.holds x = false := by simpa [fires] using fire
    simp only [silent, if_neg fire, bind, Except.bind]
    cases matching x rs <;> rfl

theorem matching_block {r : Rule} (text : ∃ s, r.condition = .str s) (block : r.severity = .block)
    (fire : r.Fires x) (rs : List Rule) : matching x (r :: rs) = .ok [r.toMatch] := by
  obtain ⟨c, reading, holds⟩ := fire
  rw [matching, holds_reading text, reading]
  simp only [holds, block, if_true, bind, Except.bind]
  rfl

/-- A faulty condition among those examined ends the evaluation with its fault. -/
theorem matching_fault {rules : List Rule} (texts : ∀ r ∈ rules, ∃ s, r.condition = .str s)
    {r : Rule} {fault : Condition.Fault} (last : (examined x rules).getLast? = some r)
    (broken : r.reading = .error fault) :
    matching x rules =
      .error (.invalidPolicy r.id fault.cause.message (some fault.position)) := by
  induction rules with
  | nil => cases last
  | cons q qs ih =>
      obtain ⟨text, texts⟩ := List.forall_mem_cons.1 texts
      by_cases stops : q.Stops x
      · rw [examined_stops stops] at last
        obtain rfl : q = r := Option.some.inj last
        rw [matching, holds_reading text, broken]
        rfl
      · obtain ⟨c, reading⟩ := reading_of_goes stops
        rw [examined_goes stops, List.getLast?_cons] at last
        cases later : (examined x qs).getLast? with
        | none =>
            rw [later] at last
            obtain rfl : q = r := Option.some.inj last
            exact nomatch reading.symm.trans broken
        | some r' =>
            rw [later] at last
            obtain rfl : r' = r := Option.some.inj last
            rw [matching_goes text stops, ih texts later]
            rfl

/-- Without a fault the matches are the examined rules that fire. -/
theorem matching_ok {rules : List Rule} (texts : ∀ r ∈ rules, ∃ s, r.condition = .str s)
    (sound : ∀ r, (examined x rules).getLast? = some r → ∃ c, r.reading = .ok c) :
    matching x rules = .ok (((examined x rules).filter fun r => r.Fires x).map Rule.toMatch) := by
  induction rules with
  | nil => rfl
  | cons q qs ih =>
      obtain ⟨text, texts⟩ := List.forall_mem_cons.1 texts
      by_cases stops : q.Stops x
      · rw [examined_stops stops] at sound ⊢
        obtain ⟨c, reading⟩ := sound q rfl
        obtain ⟨fault, broken⟩ | ⟨block, fire⟩ := stops
        · exact nomatch reading.symm.trans broken
        · rw [matching_block text block fire, List.filter_cons_of_pos (by simpa using fire)]
          rfl
      · have soundLater : ∀ r, (examined x qs).getLast? = some r → ∃ c, r.reading = .ok c := by
          intro r later
          refine sound r ?_
          rw [examined_goes stops, List.getLast?_cons, later]
          rfl
        rw [matching_goes text stops, ih texts soundLater, examined_goes stops, List.filter_cons]
        by_cases fire : q.Fires x <;> simp [fire, Except.map]

theorem winner_le (first : Match) (others : List Match) :
    (winner first others).severity.rank ≤ first.severity.rank := by
  induction others generalizing first with
  | nil => exact Nat.le_refl _
  | cons m ms ih =>
      show (winner (if m.severity.rank < first.severity.rank then m else first) ms).severity.rank ≤
        _
      split
      · rename_i graver
        exact Nat.le_trans (ih m) (Nat.le_of_lt graver)
      · exact ih first

/-- The winner stands behind less severe matches only, and before no more severe one. -/
theorem winner_decides (first : Match) (others : List Match) :
    ∃ before after, first :: others = before ++ winner first others :: after ∧
      (∀ m ∈ before, (winner first others).severity.rank < m.severity.rank) ∧
      ∀ m ∈ after, (winner first others).severity.rank ≤ m.severity.rank := by
  induction others generalizing first with
  | nil => exact ⟨[], [], rfl, List.forall_mem_nil _, List.forall_mem_nil _⟩
  | cons m ms ih =>
      have step : winner first (m :: ms) =
          winner (if m.severity.rank < first.severity.rank then m else first) ms := rfl
      rw [step]
      by_cases graver : m.severity.rank < first.severity.rank
      · rw [if_pos graver]
        obtain ⟨before, after, split, earlier, later⟩ := ih m
        have less := Nat.lt_of_le_of_lt (winner_le m ms) graver
        exact ⟨first :: before, after, congrArg (first :: ·) split,
          List.forall_mem_cons.2 ⟨less, earlier⟩, later⟩
      · rw [if_neg graver]
        have milder := Nat.le_of_not_lt graver
        obtain ⟨before, after, split, earlier, later⟩ := ih first
        cases before with
        | nil =>
            obtain ⟨same, rfl⟩ := List.cons.inj split
            exact ⟨[], m :: ms, congrArg (· :: m :: ms) same, List.forall_mem_nil _,
              List.forall_mem_cons.2 ⟨same ▸ milder, later⟩⟩
        | cons f before =>
            obtain ⟨rfl, rest⟩ := List.cons.inj split
            obtain ⟨less, earlier⟩ := List.forall_mem_cons.1 earlier
            exact ⟨first :: m :: before, after, congrArg (first :: m :: ·) rest,
              List.forall_mem_cons.2 ⟨less,
                List.forall_mem_cons.2 ⟨Nat.lt_of_lt_of_le less milder, earlier⟩⟩, later⟩

theorem blocks_last (x : SignalVector) (rules : List Rule) :
    ∀ m ∈ (((examined x rules).filter fun r => r.Fires x).map Rule.toMatch).dropLast,
      m.severity ≠ .block := by
  induction rules with
  | nil => exact List.forall_mem_nil _
  | cons q qs ih =>
      by_cases stops : q.Stops x
      · rw [examined_stops stops, List.filter_cons]
        split <;> exact List.forall_mem_nil _
      · rw [examined_goes stops, List.filter_cons]
        split
        · rename_i fire
          have lesser : q.severity ≠ .block := fun block =>
            stops (Or.inr ⟨block, by simpa using fire⟩)
          rw [List.map_cons]
          cases rest : ((examined x qs).filter fun r => r.Fires x).map Rule.toMatch with
          | nil => exact List.forall_mem_nil _
          | cons m ms =>
              rw [rest] at ih
              exact List.forall_mem_cons.2 ⟨lesser, ih⟩
        · exact ih

/-- An evaluation that is what its policy, the signals and the learning mode make it. -/
structure Decided (p : Policy) (x : SignalVector) (learningMode : Value) (e : Evaluation) :
    Prop where
  matched : e.matched = ((examined x p.rules).filter fun r => r.Fires x).map Rule.toMatch
  blocks : ∀ m ∈ e.matched.dropLast, m.severity ≠ .block
  unmatched : e.matched = [] → e.severity = .none ∧ e.action = .none
  earliest : e.matched ≠ [] → ∃ before m after, e.matched = before ++ m :: after ∧
    (∀ b ∈ before, m.severity.rank < b.severity.rank) ∧
    (∀ a ∈ after, m.severity.rank ≤ a.severity.rank) ∧
    e.severity = m.severity ∧ e.action = m.action
  factoryAction : e.factoryAction = e.action.toFactory learningMode.truthy
  version : e.version = p.version
  learningMode : e.learningMode = learningMode

/-- The conclusion takes the winner among the matches, or allows where there is none. -/
theorem conclude_decided {p : Policy} (x : SignalVector) (learningMode : Value) :
    p.Decided x learningMode (conclude p.version learningMode
      (((examined x p.rules).filter fun r => r.Fires x).map Rule.toMatch)) := by
  have blocks := blocks_last x p.rules
  generalize fired : ((examined x p.rules).filter fun r => r.Fires x).map Rule.toMatch = ms
  rw [fired] at blocks
  cases ms with
  | nil => exact ⟨fired.symm, blocks, fun _ => ⟨rfl, rfl⟩, fun h => absurd rfl h, rfl, rfl, rfl⟩
  | cons m ms =>
      refine ⟨fired.symm, blocks, (fun h => nomatch h), fun _ => ?_, rfl, rfl, rfl⟩
      obtain ⟨before, after, split, earlier, later⟩ := winner_decides m ms
      exact ⟨before, _, after, split, earlier, later, rfl, rfl⟩

def Known (p : Policy) : Prop :=
  ∀ r ∈ p.rules, unknownsOf r.id r.condition.text = []

/-- What a policy that meets its contract means for signals and a learning mode: the complaint about
the first rule with an unknown identifier, the fault of the rule that the examination ends with, or
the decision of the matches. -/
inductive Meant (p : Policy) (x : SignalVector) (learningMode : Value) :
    Except Error Evaluation → Prop
  | unknown {before after : List Rule} {r : Rule} {u : Unknown} {us : List Unknown}
      (split : p.rules = before ++ r :: after)
      (earlier : ∀ q ∈ before, unknownsOf q.id q.condition.text = [])
      (first : unknownsOf r.id r.condition.text = u :: us) :
      Meant p x learningMode (.error (.invalidPolicy r.id
        (Text.intercalate "; " ((p.rules.flatMap fun q =>
          unknownsOf q.id q.condition.text).map Unknown.text)) (some u.position)))
  | broken {r : Rule} {fault : Condition.Fault} (known : p.Known)
      (last : (examined x p.rules).getLast? = some r) (broken : r.reading = .error fault) :
      Meant p x learningMode
        (.error (.invalidPolicy r.id fault.cause.message (some fault.position)))
  | decided {e : Evaluation} (known : p.Known)
      (sound : ∀ r, (examined x p.rules).getLast? = some r → ∃ c, r.reading = .ok c)
      (decided : p.Decided x learningMode e) : Meant p x learningMode (.ok e)

theorem flatMap_eq_cons {α β : Type} {f : α → List β} {as : List α} {b : β} {bs : List β}
    (h : as.flatMap f = b :: bs) :
    ∃ before a after rest, as = before ++ a :: after ∧ (∀ c ∈ before, f c = []) ∧
      f a = b :: rest := by
  induction as with
  | nil => cases h
  | cons a as ih =>
      rw [List.flatMap_cons] at h
      cases found : f a with
      | nil =>
          rw [found] at h
          obtain ⟨before, c, after, rest, rfl, earlier, first⟩ := ih h
          exact ⟨a :: before, c, after, rest, rfl, List.forall_mem_cons.2 ⟨found, earlier⟩, first⟩
      | cons d rest =>
          rw [found] at h
          cases h
          exact ⟨[], a, as, rest, rfl, List.forall_mem_nil _, found⟩

/-- An evaluation means what its rules say, in their order. -/
theorem evaluate_meant {p : Policy} (texts : ∀ r ∈ p.rules, ∃ s, r.condition = .str s)
    (x : SignalVector) (learningMode : Option Value) :
    p.Meant x (learningMode.getD p.learningMode) (do
      checkIdentifiers (written (p.rules.map fun r => (r.id, r.condition.text)))
      p.evaluate x learningMode) := by
  rw [checkIdentifiers_written, List.flatMap_map]
  cases unknown : p.rules.flatMap fun r => unknownsOf r.id r.condition.text with
  | cons u us =>
      obtain ⟨before, r, after, rest, split, earlier, first⟩ := flatMap_eq_cons unknown
      have same : u.rule = r.id := rule_of_unknownsOf u (first ▸ List.mem_cons_self)
      have meant : p.Meant x (learningMode.getD p.learningMode) _ := .unknown split earlier first
      rw [unknown, ← same] at meant
      exact meant
  | nil =>
      have known : p.Known := List.flatMap_eq_nil_iff.1 unknown
      show p.Meant x (learningMode.getD p.learningMode) (p.evaluate x learningMode)
      rw [evaluate]
      by_cases broken : ∃ r fault, (examined x p.rules).getLast? = some r ∧ r.reading = .error fault
      · obtain ⟨r, fault, last, broken⟩ := broken
        rw [matching_fault texts last broken]
        exact .broken known last broken
      · have sound : ∀ r, (examined x p.rules).getLast? = some r → ∃ c, r.reading = .ok c := by
          intro r last
          cases reading : r.reading with
          | ok c => exact ⟨c, rfl⟩
          | error fault => exact absurd ⟨r, fault, last, reading⟩ broken
        rw [matching_ok texts sound]
        exact .decided known sound (conclude_decided x _)

theorem vector_of_complete {signals : Value} (complete : SignalVector.issues signals = []) :
    SignalVector.ofValue signals = .ok (SignalVector.ofMembers signals) := by
  rw [SignalVector.ofValue, complete]

theorem accept_of_read {p : Policy} {default : Value} {members : List (Text × Value)}
    (reads : p.ReadFrom default (.object members))
    (clean : Contract.policyIssues (Value.object members) = []) :
    accept default (.object members) = (do
      checkIdentifiers (written (p.rules.map fun r => (r.id, r.condition.text)))
      return p) := by
  show ofObject default (.object members) = _
  rw [ofObject, clean]
  simp only [reads.rawConditions, reads.ofValue, Misfit.lift, mapError_ok, bind, Except.bind, pure,
    Except.pure]

def infraSignals : Value :=
  .object [("ci_status", .str "failure"), ("security_critical_count", .int 0),
    ("security_high_count", .int 0), ("infra_change", .bool true), ("db_migration", .bool false),
    ("auth_change", .bool false), ("secrets_change", .bool false),
    ("dependency_change", .bool false), ("canary_error_rate", .int 0),
    ("canary_latency_delta", .int 0)]

end Policy

end ReleaseGate
