import ReleaseGate.Proofs.Number.Bounds
import ReleaseGate.Proofs.Value.Places
import ReleaseGate.Proofs.Verdict.Inputs

/-!
Scores of checked inputs. What the contracts admit is scored without a fault, every score is from 0
to 100, and the confidence lies between zero and one.
-/

namespace ReleaseGate

namespace Scorecard

def IsScore (i : Int) : Prop := 0 ≤ i ∧ i ≤ 100

section

-- The number of quanta in a unit counts here by name only.
attribute [local irreducible] quantaPerUnit

theorem roundHalfUp_yields {x : Double} (h : x.UpTo (100 * quantaPerUnit)) :
    Yields (roundHalfUp x) IsScore := by
  have fits : Representable (100 * quantaPerUnit + quantaPerUnit / 2) := by decide +kernel
  have sum := Double.add_upTo h Double.half_upTo fits
  have below : 100 * quantaPerUnit + quantaPerUnit / 2 < (100 + 1) * quantaPerUnit := by
    have := Double.quantaPerUnit_pos
    omega
  obtain ⟨i, floor, most⟩ := Double.floor_upTo sum below
  unfold roundHalfUp
  rw [floor]
  exact .ok ⟨Int.natCast_nonneg i, by omega⟩

/-- A number is clamped to a score, wherever it lies. -/
theorem clampScore_yields {v : Value} {a : Int} (place : v.place? = some (some (.at a)))
    (inside : 0 ≤ a → a ≤ 100 * quantaPerUnit →
      ∃ x, v.asDouble = .ok x ∧ x.UpTo (100 * quantaPerUnit)) :
    Yields (clampScore v) IsScore := by
  have low := Value.before_at place (w := .int 0) rfl
  have high := Value.before_at (v := .int 100) rfl place
  rw [clampScore, low, high]
  by_cases negative : a < 0 * quantaPerUnit
  · rw [decide_eq_true negative]
    exact .ok ⟨by decide, by decide⟩
  · rw [decide_eq_false negative]
    by_cases above : 100 * (quantaPerUnit : Int) < a
    · rw [decide_eq_true above]
      exact .ok ⟨by decide, by decide⟩
    · rw [decide_eq_false above]
      obtain ⟨x, double, bounded⟩ := inside (by omega) (by omega)
      show Yields (v.asDouble >>= roundHalfUp) IsScore
      rw [double]
      exact roundHalfUp_yields bounded

theorem clampScore_float {most : Nat} {x : Double} (h : x.UpTo most) :
    Yields (clampScore (.float x)) IsScore := by
  obtain ⟨q, fits, rfl, -⟩ := h
  refine clampScore_yields (a := q) rfl fun _ bound => ⟨_, rfl, q, fits, rfl, ?_⟩
  omega

theorem asDouble_int {i : Int} {most : Nat} (h : (Double.ofInt i).UpTo most) :
    (Value.int i).asDouble = .ok (Double.ofInt i) := by
  obtain ⟨q, hq, double, -⟩ := h
  rw [Value.asDouble, Value.asDouble.ofWhole, double]
  rfl

theorem clampScore_int (i : Int) : Yields (clampScore (.int i)) IsScore := by
  refine clampScore_yields (a := i * quantaPerUnit) rfl fun least most => ?_
  have units : (0 : Int) < quantaPerUnit := Int.natCast_pos.2 Double.quantaPerUnit_pos
  have small : i ≤ 100 := Int.le_of_mul_le_mul_right most units
  have nonneg : 0 ≤ i := Int.le_of_mul_le_mul_right (by omega) units
  have fits : Representable (100 * quantaPerUnit) := by decide +kernel
  have bounded := Double.ofInt_upTo fits nonneg small
  exact ⟨Double.ofInt i, asDouble_int bounded, bounded⟩

/-- Quarters, fifths and their like: whatever the scores, their weighted sum is finite. -/
theorem weightedSum_upTo {tests security ops risk policy : Int} (ht : IsScore tests)
    (hs : IsScore security) (ho : IsScore ops) (hr : IsScore risk) (hp : IsScore policy) :
    ∃ most, (weightedSum tests security ops risk policy).UpTo most := by
  have score {i : Int} (h : IsScore i) : (Double.ofInt i).UpTo (100 * quantaPerUnit) :=
    Double.ofInt_upTo (by decide +kernel) h.1 h.2
  have share {n : Nat} (h : n ≤ 100) : (weight n).UpTo (1 * quantaPerUnit) :=
    Double.ofQuotient_upTo (by decide) (by decide +kernel) (Int.natCast_nonneg n) (by omega)
  have term {i : Int} {n : Nat} (hi : IsScore i) (hn : n ≤ 100) :
      ((Double.ofInt i).mul (weight n)).UpTo (100 * quantaPerUnit) :=
    Double.mul_upTo (score hi) (share hn) (by decide +kernel) (Nat.le_of_eq (by rw [Nat.one_mul]))
  have two := Double.add_upTo (term ht (n := 25) (by decide)) (term hs (n := 25) (by decide))
    (by decide +kernel)
  have three := Double.add_upTo two (term ho (n := 20) (by decide)) (by decide +kernel)
  have four := Double.add_upTo three (term hr (n := 15) (by decide)) (by decide +kernel)
  exact ⟨_, Double.add_upTo four (term hp (n := 15) (by decide)) (by decide +kernel)⟩

end

open Verdict (CiRead SecurityRead CanaryRead FlagsRead SummaryRead InputsRead SnapshotRead)

theorem ciFailed_yields {ci : Value} (read : CiRead ci) : Yields (ciFailed ci) fun _ => True :=
  read.status.bind fun _ _ => .ok trivial

theorem hasSecurityFindings_yields {security : Value} (read : SecurityRead security) :
    Yields (hasSecurityFindings security) fun _ => True := by
  refine read.critical.bind fun critical integer => ?_
  refine (Value.before_yields rfl (Value.fits_number_of_integer integer)).bind fun _ _ => ?_
  refine .ite (.ok trivial) (read.high.bind fun high integer => ?_)
  exact Value.before_yields rfl (Value.fits_number_of_integer integer)

theorem canaryFailed_yields {found : Option Value} (read : ∀ v ∈ found, CanaryRead v) :
    Yields (canaryFailed (found.getD .null)) fun _ => True := by
  cases found with
  | none => exact .ok trivial
  | some canary =>
      have read := read canary rfl
      have latency {next : Option Value → Except Misfit Bool} (absent : next none = .ok false)
          (given : ∀ delta, next (some delta) = (Value.int maxLatencyDelta).before delta) :
          Yields (canary.findSome "latency_delta" >>= next) fun _ => True := by
        refine read.delta.bind fun found fits => ?_
        cases found with
        | none => exact absent ▸ .ok trivial
        | some delta => exact given delta ▸ Value.before_yields rfl (fits delta rfl)
      refine .ite (.ok trivial) (read.passed.bind fun _ _ => .ite (.ok trivial) ?_)
      refine read.rate.bind fun found fits => ?_
      cases found with
      | none => exact latency rfl fun _ => rfl
      | some rate =>
          refine (Value.before_yields rfl (fits rate rfl)).bind fun _ _ => .ite (.ok trivial) ?_
          exact latency rfl fun _ => rfl

theorem coverageBonus_yields {delta : Value} (number : delta.fits .number = true) :
    Yields (coverageBonus delta) fun _ => True := by
  refine (Value.notAfter_yields number rfl).bind fun _ _ => .ite (.ok trivial) ?_
  refine (Value.before_yields number rfl).bind fun _ _ => .ite (.ok trivial) ?_
  exact (Value.before_yields rfl number).bind fun _ _ => .ite (.ok trivial) (.ok trivial)

theorem scoreTests_yields {ci : Value} (read : CiRead ci) : Yields (scoreTests ci) IsScore := by
  refine (ciFailed_yields read).bind fun _ _ => .ite (.ok ⟨by decide, by decide⟩) ?_
  refine read.delta.bind fun found fits => ?_
  cases found with
  | none => exact clampScore_int 90
  | some delta =>
      exact (coverageBonus_yields (fits delta rfl)).bind fun bonus _ => clampScore_int (90 + bonus)

theorem scoreSecurity_yields {security : Value} (read : SecurityRead security) :
    Yields (scoreSecurity security) IsScore := by
  refine (hasSecurityFindings_yields read).bind fun found _ => .ok ?_
  cases found <;> exact ⟨by decide, by decide⟩

theorem scoreOps_yields {found : Option Value} (read : ∀ v ∈ found, CanaryRead v) :
    Yields (scoreOps (found.getD .null)) IsScore := by
  refine .ite (.ok ⟨by decide, by decide⟩) ?_
  refine (canaryFailed_yields read).bind fun failed _ => .ok ?_
  cases failed <;> exact ⟨by decide, by decide⟩

theorem penalties_yields {flags : Value} (read : FlagsRead flags) (table : List (Text × Int)) :
    Yields (penalties flags table) fun _ => True := by
  induction table with
  | nil => exact .ok trivial
  | cons entry rest ih => exact (read.find entry.1).bind fun _ _ => ih.bind fun _ _ => .ok trivial

theorem sizePenalty_yields {files : Value} (integer : files.fits .integer = true) :
    Yields (sizePenalty files) fun _ => True := by
  have number := Value.fits_number_of_integer integer
  refine (Value.before_yields rfl number).bind fun _ _ => .ite (.ok trivial) ?_
  exact (Value.before_yields rfl number).bind fun _ _ => .ite (.ok trivial) (.ok trivial)

theorem isRiskyPath_yields (s : Text) (parts : List Text) :
    Yields (isRiskyPath (.str s) parts) fun _ => True := by
  induction parts with
  | nil => exact .ok trivial
  | cons part parts ih => exact .ite (.ok trivial) ih

theorem anyItem_yields {test : Value → Except Misfit Bool} {vs : List Value}
    (h : ∀ v ∈ vs, Yields (test v) fun _ => True) :
    Yields (Value.anyItem test vs) fun _ => True := by
  induction vs with
  | nil => exact .ok trivial
  | cons v vs ih =>
      obtain ⟨first, rest⟩ := List.forall_mem_cons.1 h
      exact first.bind fun _ _ => .ite (.ok trivial) (ih rest)

theorem pathPenalty_yields {found : Option Value}
    (texts : ∀ v ∈ found, ∃ ps, v = .list ps ∧ ∀ p ∈ ps, ∃ s, p = .str s) :
    Yields (pathPenalty found) fun _ => True := by
  cases found with
  | none => exact .ok trivial
  | some paths =>
      obtain ⟨ps, rfl, strings⟩ := texts paths rfl
      refine .ite (.ok trivial) ((anyItem_yields fun p hp => ?_).bind fun _ _ => .ok trivial)
      obtain ⟨s, rfl⟩ := strings p hp
      exact isRiskyPath_yields s riskyPathParts

theorem scoreRisk_yields {summary : Value} (read : SummaryRead summary) :
    Yields (scoreRisk summary) IsScore := by
  refine read.flags.bind fun flags flagged => ?_
  refine (penalties_yields flagged flagPenalties).bind fun _ _ => ?_
  refine read.files.bind fun files integer => (sizePenalty_yields integer).bind fun _ _ => ?_
  refine read.paths.bind fun found texts => (pathPenalty_yields texts).bind fun _ _ => ?_
  exact clampScore_int _

theorem matchedSeverities_yields {snapshot : Value} (read : SnapshotRead snapshot) :
    Yields (matchedSeverities snapshot) fun _ => True := by
  refine read.rules.bind fun v hv => ?_
  obtain ⟨rs, rfl, severities⟩ := hv
  exact (Yields.mapM severities).mono fun _ _ => trivial

theorem scorePolicy_yields {snapshot : Value} (read : SnapshotRead snapshot) :
    Yields (scorePolicy snapshot) IsScore := by
  refine (matchedSeverities_yields read).bind fun _ _ => ?_
  refine .ite (.ok ⟨by decide, by decide⟩) (.ite (.ok ⟨by decide, by decide⟩) ?_)
  exact .ite (.ok ⟨by decide, by decide⟩) (.ok ⟨by decide, by decide⟩)

theorem riskLevelOf_yields (i : Int) : Yields (riskLevelOf (.int i)) fun _ => True := by
  refine (Value.notAfter_yields rfl rfl).bind fun _ _ => .ite (.ok trivial) ?_
  exact (Value.notAfter_yields rfl rfl).bind fun _ _ => .ite (.ok trivial) (.ok trivial)

theorem raisedRisk_yields {flags : Value} (read : FlagsRead flags) (level : RiskLevel) :
    Yields (raisedRisk flags level) fun _ => True := by
  refine read.infra.bind fun _ _ => read.db.bind fun _ _ => ?_
  exact .ite (.ok trivial) (.ite (.ok trivial) (.ok trivial))

structure Ranged (s : Scorecard) : Prop where
  tests : IsScore s.tests
  security : IsScore s.security
  risk : IsScore s.risk
  ops : IsScore s.ops
  policy : IsScore s.policy
  overall : IsScore s.overall

/-- Inputs that can be read are always scored, with every score in range. -/
theorem compute_yields {inputs snapshot : Value} (read : InputsRead inputs)
    (policyRead : SnapshotRead snapshot) : Yields (compute inputs snapshot) Ranged := by
  refine read.signals.bind fun signals signalsRead => ?_
  refine read.summary.bind fun summary summaryRead => ?_
  refine signalsRead.ci.bind fun ci ciRead => (scoreTests_yields ciRead).bind fun tests ht => ?_
  refine signalsRead.security.bind fun security securityRead => ?_
  refine (scoreSecurity_yields securityRead).bind fun security hs => ?_
  refine signalsRead.canary.bind fun canary canaryRead => ?_
  refine (scoreOps_yields canaryRead).bind fun ops ho => ?_
  refine (scoreRisk_yields summaryRead).bind fun risk hr => ?_
  refine (scorePolicy_yields policyRead).bind fun policy hp => ?_
  obtain ⟨most, sum⟩ := weightedSum_upTo ht hs ho hr hp
  refine (clampScore_float sum).bind fun overall total => ?_
  refine (riskLevelOf_yields overall).bind fun level _ => ?_
  refine summaryRead.flags.bind fun flags flagsRead => ?_
  exact (raisedRisk_yields flagsRead level).bind fun _ _ => .ok ⟨ht, hs, hr, ho, hp, total⟩

section

-- The number of quanta in a unit counts here by name only.
attribute [local irreducible] quantaPerUnit

theorem one_eq : Double.one = .finite false quantaPerUnit (by decide +kernel) := by
  decide +kernel

theorem inUnit_of_place {x : Double} {a : Int} (place : x.point? = some (.at a)) (least : 0 ≤ a)
    (most : a ≤ quantaPerUnit) : (Value.float x).InUnit := by
  have at_ : (Value.float x).place? = some (some (.at a)) := congrArg some place
  have low := Value.notAfter?_at (v := .int 0) rfl at_
  have high := Value.notAfter?_at at_ (w := .int 1) rfl
  refine ⟨rfl, low.trans ?_, high.trans ?_⟩
  · rw [decide_eq_true (by omega)]
  · rw [decide_eq_true (by omega)]

/-- A number without a sign is cut off at one. -/
theorem clampUnit_eq (q : Nat) (fits : Representable q) :
    clampUnit (.float (.finite false q fits)) =
      .ok (if q < quantaPerUnit then .finite false q fits else .one) := by
  have place : (Value.float (.finite false q fits)).place? = some (some (.at q)) := rfl
  have unit : (Value.float .one).place? = some (some (.at quantaPerUnit)) := by
    rw [one_eq]
    rfl
  have positive := Value.before_at (v := .float (.zero false)) (a := 0) rfl place
  have units := Double.quantaPerUnit_pos
  rw [clampUnit, positive, Value.before_at place unit]
  by_cases above : 0 < q
  · rw [decide_eq_true (Int.natCast_pos.2 above)]
    by_cases inside : q < quantaPerUnit
    · rw [decide_eq_true (Int.ofNat_lt.2 inside), if_pos inside]
      rfl
    · rw [decide_eq_false (mt Int.ofNat_lt.1 inside), if_neg inside]
      rfl
  · obtain rfl : q = 0 := by omega
    rw [if_pos units]
    rfl

theorem clampUnit_yields {x : Double} {most : Nat} (h : x.UpTo most) :
    Yields (clampUnit (.float x)) fun y => (Value.float y).InUnit := by
  obtain ⟨q, fits, rfl, -⟩ := h
  rw [clampUnit_eq]
  refine .ok ?_
  split
  · rename_i inside
    exact inUnit_of_place (a := q) rfl (Int.natCast_nonneg q) (Int.ofNat_le.2 (Nat.le_of_lt inside))
  · rw [one_eq]
    exact inUnit_of_place rfl (Int.natCast_nonneg _) (Int.le_refl _)

/-- The hundredths nearest to a number of quanta, a half going up. -/
def hundredths (q : Nat) : Nat := (200 * q + quantaPerUnit) / (2 * quantaPerUnit)

theorem hundredths_lt {q : Nat} (most : q ≤ 2 * quantaPerUnit) : hundredths q < 300 := by
  have units := Double.quantaPerUnit_pos
  exact (Nat.div_lt_iff_lt_mul (by omega)).2 (by omega)

theorem hundredths_quanta {q : Nat} (most : q ≤ 2 * quantaPerUnit) :
    hundredths q * quantaPerUnit ≤ 3 * quantaPerUnit * 100 := by
  calc hundredths q * quantaPerUnit ≤ 300 * quantaPerUnit :=
        Nat.mul_le_mul_right _ (Nat.le_of_lt (hundredths_lt most))
    _ = 3 * quantaPerUnit * 100 := by omega

theorem toHundredths_eq {q : Nat} {fits : Representable q} (most : q ≤ 2 * quantaPerUnit) :
    toHundredths (.finite false q fits) =
      .ok (Double.ofRatio false (hundredths q * quantaPerUnit) 100) :=
  if_pos (Nat.lt_trans (hundredths_lt most) (by decide))

theorem toHundredths_yields {x : Double} (h : x.UpTo (2 * quantaPerUnit)) :
    Yields (toHundredths x) fun y => y.UpTo (3 * quantaPerUnit) := by
  obtain ⟨q, fits, rfl, bound⟩ := h
  rw [toHundredths_eq bound]
  exact .ok (Double.ofRatio_upTo (by decide) (by decide +kernel) (hundredths_quanta bound))

theorem perCent_int {i : Int} {most : Nat} (h : (Double.ofQuotient i 100).UpTo most) :
    perCent (.int i) = .ok (Double.ofQuotient i 100) := by
  obtain ⟨q, fits, finite, -⟩ := h
  rw [perCent, perCent.ofWhole, finite]
  rfl

theorem perCent_yields {overall : Int} (score : IsScore overall) :
    Yields (perCent (.int overall)) fun base => base.UpTo (1 * quantaPerUnit) := by
  have share : (Double.ofQuotient overall 100).UpTo (1 * quantaPerUnit) :=
    Double.ofQuotient_upTo (by decide) (by decide +kernel) score.1 score.2
  rw [perCent_int share]
  exact .ok share

/-- A score always has a confidence between 0 and 1. -/
theorem confidence_yields {overall : Int} (score : IsScore overall) (riskLevel : Value) :
    Yields (confidence (.int overall) riskLevel) fun y => (Value.float y).InUnit := by
  refine (perCent_yields score).bind fun base share => ?_
  have product {y : Double} (h : y.UpTo quantaPerUnit) : (base.mul y).UpTo quantaPerUnit :=
    Double.mul_upTo share h (by decide +kernel) (Nat.le_of_eq (by rw [Nat.one_mul]))
  have half : Double.half.UpTo quantaPerUnit := Double.half_upTo.mono (Nat.div_le_self _ _)
  have raw : Double.UpTo (2 * quantaPerUnit)
      (if riskLevel = .str RiskLevel.low.name then Double.half.add (base.mul .half)
      else if riskLevel = .str RiskLevel.medium.name then base.mul (Double.ofQuotient 3 4)
      else base.mul .half) := by
    split
    · exact (Double.add_upTo half (product half) (by decide +kernel)).mono (by omega)
    · split
      · have quarters : (Double.ofQuotient 3 4).UpTo (1 * quantaPerUnit) :=
          Double.ofQuotient_upTo (by decide) (by decide +kernel) (by decide) (by decide)
        exact (product (quarters.mono (by omega))).mono (by omega)
      · exact (product half).mono (by omega)
  exact (toHundredths_yields raw).bind fun y hy => clampUnit_yields hy

end

end Scorecard

end ReleaseGate
