import ReleaseGate.Proofs.Verdict.Blockers
import ReleaseGate.Proofs.Verdict.Riskier

/-!
The canary behind an approval. The limits are asked for breaches, so that a measurement which is no
number breaches none of them; every other measurement behind an approval is within its limit.
-/

namespace ReleaseGate

namespace Value

variable {v w : Value}

/-- Of all numbers only NaN has no place in the order. -/
theorem place?_none_iff (number : v.fits .number = true) :
    v.place? = some none ↔ v = .float .nan := by
  cases v with
  | int i => exact iff_of_false (fun h => nomatch h) (fun h => nomatch h)
  | float x => cases x <;> simp [place?, Double.point?]
  | null | bool _ | str _ | list _ | object _ => cases number

theorem placed_of_ne_nan (number : v.fits .number = true) (some_ : v ≠ .float .nan) :
    ∃ p, v.place? = some (some p) := by
  obtain ⟨p, place⟩ := place?_of_number number
  cases p with
  | none => exact absurd ((place?_none_iff number).1 place) some_
  | some p => exact ⟨p, place⟩

/-- A number that lies not behind a limit lies before it or in its place, unless it lies nowhere. -/
theorem notAfter?_iff_of_before {q : Point} (number : v.fits .number = true)
    (limit : w.place? = some (some q)) (kept : w.before v = .ok false) :
    v.notAfter? w = some true ↔ v ≠ .float .nan := by
  obtain ⟨p, place⟩ := place?_of_number number
  rw [notAfter?_of_places place limit, ne_eq, ← place?_none_iff number, place]
  rw [before, before?_of_places limit place] at kept
  cases p with
  | none => simp [related]
  | some p =>
      have behind : q.lt p = false := Except.ok.inj kept
      simp [related, Point.le, behind]

theorem findSome_eq {key : Text} {found : Option Value} (number : w.fits .number = true)
    (there : v.member? key = some w) (h : v.findSome key = .ok found) : found = some w := by
  cases v with
  | object ms =>
      have looked : ms.lookup key = some w := there
      rw [findSome, find, looked] at h
      cases w <;> first | exact (Except.ok.inj h).symm | cases number
  | null | bool _ | int _ | float _ | str _ | list _ => cases there

end Value

namespace Scorecard

open Verdict

/-- A measurement is within its limit where it is given, unless it is no number. -/
def Kept (canary : Value) (key : Text) (limit : Value) : Prop :=
  ∀ v, canary.member? key = some v → (v.notAfter? limit = some true ↔ v ≠ .float .nan)

theorem maxErrorRate_ne_nan : Value.float maxErrorRate ≠ .float .nan := fun same =>
  (by decide +kernel : maxErrorRate ≠ .nan) (Value.float.inj same)

theorem maxErrorRate_placed : ∃ q, (Value.float maxErrorRate).place? = some (some q) :=
  Value.placed_of_ne_nan rfl maxErrorRate_ne_nan

variable {canary : Value}

def breaches (canary : Value) (key : Text) (limit : Value) : Except Misfit Bool := do
  match ← canary.findSome key with
  | some v => limit.before v
  | none => return false

theorem canaryFailed_of_passed (there : canary.truthy = true)
    (passed : canary.need "passed" = .ok (.bool true)) :
    canaryFailed canary = (do
      if ← breaches canary "error_rate" (.float maxErrorRate) then return true
      breaches canary "latency_delta" (.int maxLatencyDelta)) := by
  rw [canaryFailed, there, passed, breaches]
  cases canary.findSome "error_rate" with
  | error e => rfl
  | ok rate => cases rate <;> rfl

theorem kept_of_breaches {key : Text} {limit : Value}
    (placed : ∃ q, limit.place? = some (some q))
    (number : ∀ v, canary.member? key = some v → v.fits .number = true)
    (calm : breaches canary key limit = .ok false) : Kept canary key limit := by
  intro v there
  obtain ⟨q, place⟩ := placed
  obtain ⟨found, looked, kept⟩ := bind_eq_ok calm
  cases Value.findSome_eq (number v there) there looked
  exact Value.notAfter?_iff_of_before (number v there) place kept

structure CanaryChecked (canary : Value) : Prop where
  object : canary.fits .object = true
  passed : ∃ b, canary.member? "passed" = some (.bool b)
  rate : ∀ v, canary.member? "error_rate" = some v → v.fits .number = true
  delta : ∀ v, canary.member? "latency_delta" = some v → v.fits .number = true

open Check in
theorem canary_checked {path : Path} {inputs : Value} (clean : Contract.inputs path inputs = []) :
    ∃ signals, inputs.need "signals" = .ok signals ∧ signals.fits .object = true ∧
      ∀ canary, signals.member? "canary" = some canary → CanaryChecked canary := by
  rw [Contract.inputs, object_clean] at clean
  obtain ⟨ms, rfl, clean⟩ := clean
  simp only [both_cons_clean] at clean
  obtain ⟨signals, found, object, checked⟩ := required_clean.1 clean.2.2.2.1
  refine ⟨signals, need_of_member found, object, fun canary given => ?_⟩
  simp only [both_cons_clean] at checked
  obtain ⟨fit, checked⟩ := optional_clean.1 checked.2.2.2.1 canary given
  simp only [Contract.canary, both_cons_clean] at checked
  obtain ⟨b, found, flag, -⟩ := required_clean.1 checked.2.1
  obtain ⟨b, rfl⟩ := fits_flag.1 flag
  exact ⟨fit, ⟨b, found⟩, fun v hv => (optional_clean.1 checked.2.2.1 v hv).1,
    fun v hv => (optional_clean.1 checked.2.2.2.1 v hv).1⟩

theorem CanaryChecked.truthy (checked : CanaryChecked canary) : canary.truthy = true :=
  Value.truthy_of_member checked.passed.choose_spec

/-- A canary without a failure passed, and kept its limits up to NaN. -/
theorem canaryFailed_calm (checked : CanaryChecked canary)
    (calm : canaryFailed canary = .ok false) :
    canary.member? "passed" = some (.bool true) ∧
      Kept canary "error_rate" (.float maxErrorRate) ∧
      Kept canary "latency_delta" (.int maxLatencyDelta) := by
  obtain ⟨b, passed⟩ := checked.passed
  cases b with
  | false =>
      rw [canaryFailed, checked.truthy, need_of_member passed] at calm
      cases calm
  | true =>
      rw [canaryFailed_of_passed checked.truthy (need_of_member passed)] at calm
      obtain ⟨breached, rate, calm⟩ := bind_eq_ok calm
      cases breached with
      | true => cases calm
      | false =>
          exact ⟨passed, kept_of_breaches maxErrorRate_placed checked.rate rate,
            kept_of_breaches ⟨_, rfl⟩ checked.delta calm⟩

end Scorecard

namespace Verdict

open Scorecard

/-- Behind an approval the canary is absent, or it has passed and each measurement that is given and
is a number is within its limit. -/
theorem approval_canary {run inputs snapshot doc : Value}
    (built : build run inputs snapshot = .ok doc) (approves : proposedOf doc = approval) :
    ∃ signals, inputs.member? "signals" = some signals ∧
      (signals.member? "canary" = none ∨ ∃ canary, signals.member? "canary" = some canary ∧
        canary.member? "passed" = some (.bool true) ∧
        Kept canary "error_rate" (.float maxErrorRate) ∧
        Kept canary "latency_delta" (.int maxLatencyDelta)) := by
  obtain ⟨clean, c, rfl⟩ := Composition.of_built built
  obtain ⟨signals, found, object, checked⟩ := canary_checked (inputIssues_clean.1 clean).2.1
  refine ⟨signals, Value.member?_of_need found, ?_⟩
  have proposed := c.proposed
  rw [c.proposedOf_document run] at approves
  rw [approves] at proposed
  obtain ⟨_, _, _, _, _, -, found', needs, -, -, left⟩ := proposedAction_parts proposed
  obtain ⟨rfl, -, -, -⟩ := settle_eq_approval.1 left.symm
  cases found.symm.trans found'
  cases given : signals.member? "canary" with
  | none => exact Or.inl rfl
  | some canary =>
      obtain ⟨-, _, -, -, -, looked, calm, -⟩ := calm_of_needsRollback needs
      cases looked.symm.trans (Value.find_of_member given "canary")
      rw [given] at calm
      obtain ⟨passed, rate, delta⟩ := canaryFailed_calm (checked canary given) calm
      exact Or.inr ⟨canary, rfl, passed, rate, delta⟩

def measuredInputs (rate : Value) : Value :=
  .object [("learning_mode", .bool false),
    ("change_summary", .object [("files_changed", .int 0),
      ("change_flags", .object (Contract.changeFlags.map fun flag => (flag, .bool false)))]),
    ("signals", .object [("ci", .object [("status", .str "success")]),
      ("security", .object [("critical_count", .int 0), ("high_count", .int 0)]),
      ("canary", .object [("passed", .bool true), ("error_rate", rate),
        ("latency_delta", .int 100)])])]

def allowingSnapshot : Value :=
  .object [("matched_rules", .list []), ("policy_action", .str PolicyAction.allow.name),
    ("proposed_factory_action", approval)]

/-- Measurements at their limits are approved, and are within them. -/
theorem approval_canary_limits :
    ∃ doc, build (rollbackPart "run") (measuredInputs (.float maxErrorRate)) allowingSnapshot =
        .ok doc ∧ proposedOf doc = approval ∧
      (Value.float maxErrorRate).notAfter? (.float maxErrorRate) = some true ∧
      (Value.int 100).notAfter? (.int maxLatencyDelta) = some true := by
  have shown : (build (rollbackPart "run") (measuredInputs (.float maxErrorRate))
      allowingSnapshot).toOption.map proposedOf = some approval := by decide +kernel
  obtain ⟨doc, built, approves⟩ := Option.map_eq_some_iff.1 shown
  have built := eq_ok_of_toOption built
  refine ⟨doc, built, approves, ?_⟩
  obtain ⟨_, found, absent | ⟨_, there, -, rate, delta⟩⟩ := approval_canary built approves
  · cases found
    cases absent
  · cases found
    cases there
    exact ⟨(rate _ rfl).2 maxErrorRate_ne_nan, (delta _ rfl).2 (fun h => nomatch h)⟩

/-- A rate that is no number is approved, and is not within the limit. -/
theorem unmeasured_rate_approved :
    ∃ doc signals canary rate,
      build (rollbackPart "run") (measuredInputs (.float .nan)) allowingSnapshot = .ok doc ∧
      proposedOf doc = approval ∧
      (measuredInputs (.float .nan)).member? "signals" = some signals ∧
      signals.member? "canary" = some canary ∧ canary.member? "error_rate" = some rate ∧
      rate.notAfter? (.float maxErrorRate) = some false := by
  have shown : (build (rollbackPart "run") (measuredInputs (.float .nan))
      allowingSnapshot).toOption.map proposedOf = some approval := by decide +kernel
  obtain ⟨doc, built, approves⟩ := Option.map_eq_some_iff.1 shown
  exact ⟨doc, _, _, .float .nan, eq_ok_of_toOption built, approves, rfl, rfl, rfl,
    by decide +kernel⟩

end Verdict

end ReleaseGate
