import ReleaseGate.Proofs.Number.Exact
import ReleaseGate.Proofs.Verdict.Built
import ReleaseGate.Proofs.Verdict.Falling

/-!
The five scores of checked inputs and their weighted sum. A change is looked at for four findings;
each of them takes one score to zero, and nothing else does. The scores are multiples of five, and
so no step of the weighted sum is rounded: the overall score is the whole number nearest to the
exact sum, a half going up.
-/

namespace ReleaseGate

open Verdict (CiRead SecurityRead CanaryRead SignalsRead SummaryRead InputsRead SnapshotRead)

/-- What is found against a change. -/
structure Findings where
  ci : Bool
  canary : Bool
  security : Bool
  policy : Bool

/-- The findings that signals and a snapshot give. -/
structure Findings.Of (f : Findings) (signals snapshot : Value) : Prop where
  ci : signals.need "ci" >>= Scorecard.ciFailed = .ok f.ci
  canary : (signals.find "canary" >>= fun c => Scorecard.canaryFailed (c.getD .null)) = .ok f.canary
  security : signals.need "security" >>= Scorecard.hasSecurityFindings = .ok f.security
  policy : Rationale.hasBlockingRule snapshot = .ok f.policy

theorem findings_of_read {signals snapshot : Value} (read : SignalsRead signals)
    (policyRead : SnapshotRead snapshot) : ∃ f : Findings, f.Of signals snapshot := by
  obtain ⟨ci, ciEnded, -⟩ := read.ci.bind fun ci ciRead => Scorecard.ciFailed_yields ciRead
  obtain ⟨canary, canaryEnded, -⟩ :=
    read.canary.bind fun canary canaryRead => Scorecard.canaryFailed_yields canaryRead
  obtain ⟨security, securityEnded, -⟩ :=
    read.security.bind fun security securityRead => Scorecard.hasSecurityFindings_yields
      securityRead
  obtain ⟨policy, policyEnded, -⟩ := Rationale.hasBlockingRule_yields policyRead
  exact ⟨⟨ci, canary, security, policy⟩, ciEnded, canaryEnded, securityEnded, policyEnded⟩

namespace Scorecard

-- The number of quanta in a unit and in a quarter counts here by name only.
attribute [local irreducible] quantaPerUnit Double.quarter

theorem few_quarters {j : Nat} (few : j ≤ 402) : j < Nat.pow 2 53 :=
  Nat.lt_of_le_of_lt few (by decide)

/-- A number of quarters is rounded exactly, halves upwards. -/
theorem roundHalfUp_quarters {j : Nat} {x : Double} (h : x.IsQuarters j) (most : j ≤ 400) :
    roundHalfUp x = .ok (((j + 2) / 4 : Nat) : Int) := by
  have sum := Double.add_quarters h Double.half_quarters (few_quarters (by omega))
  unfold roundHalfUp
  rw [Double.floor_quarters sum]

theorem clampScore_inside {v : Value} {x : Double} {i : Int}
    (low : v.before (.int 0) = .ok false) (high : (Value.int 100).before v = .ok false)
    (double : v.asDouble = .ok x) (rounded : roundHalfUp x = .ok i) : clampScore v = .ok i := by
  rw [clampScore, low, high]
  show v.asDouble >>= roundHalfUp = _
  rw [double]
  exact rounded

theorem clampScore_quarters {j : Nat} {x : Double} (h : x.IsQuarters j) (most : j ≤ 400) :
    clampScore (.float x) = .ok (((j + 2) / 4 : Nat) : Int) := by
  have place : (Value.float x).place? = some (some (.at (j * Double.quarter : Nat))) := by
    obtain ⟨fits, rfl⟩ := h
    rfl
  have few : j * Double.quarter ≤ 400 * Double.quarter := Nat.mul_le_mul_right _ most
  have units := Double.unit_eq
  have low := Value.before_at place (w := .int 0) rfl
  have high := Value.before_at (v := .int 100) rfl place
  rw [decide_eq_false (by omega)] at low high
  exact clampScore_inside low high rfl (roundHalfUp_quarters h most)

/-- A whole number is cut off at both ends and not changed in between. -/
theorem clampScore_whole (i : Int) : clampScore (.int i) = .ok (max 0 (min i 100)) := by
  have low := before_int i 0
  have high := before_int 100 i
  by_cases negative : i < 0
  · rw [clampScore, low, decide_eq_true negative]
    exact congrArg Except.ok (by omega)
  · rw [decide_eq_false negative] at low
    by_cases above : 100 < i
    · rw [clampScore, low, high, decide_eq_true above]
      exact congrArg Except.ok (by omega)
    · rw [decide_eq_false above] at high
      have whole := Double.ofInt_quarters (n := i) (by omega) (few_quarters (by omega))
      have rounded := roundHalfUp_quarters whole (by omega)
      rw [clampScore_inside low high (asDouble_int whole.upTo) rounded]
      exact congrArg Except.ok (by omega)

structure Fives (i : Int) : Prop where
  least : 0 ≤ i
  most : i ≤ 100
  fives : 5 ∣ i

theorem Fives.clamped {i : Int} (h : 5 ∣ i) : Fives (max 0 (min i 100)) :=
  ⟨by omega, by omega, by omega⟩

theorem Fives.multiple {i : Int} (h : Fives i) : ∃ m : Nat, i = 5 * (m : Int) ∧ m ≤ 20 := by
  obtain ⟨least, most, k, rfl⟩ := h
  exact ⟨k.toNat, by omega, by omega⟩

/-- A score that is zero exactly where something is found. -/
structure Dimension (found : Bool) (i : Int) : Prop extends Fives i where
  zero : i = 0 ↔ found = true

theorem Dimension.zeroed : Dimension true 0 :=
  ⟨⟨Int.le_refl 0, by decide, by decide⟩, by simp⟩

theorem Dimension.kept {i : Int} (score : Fives i) (some : i ≠ 0) : Dimension false i :=
  ⟨score, by simpa using some⟩

theorem Dimension.of_found (found : Bool) {i : Int} (score : Fives i) (some : i ≠ 0) :
    Dimension found (if found then 0 else i) := by
  cases found with
  | true => exact .zeroed
  | false => exact .kept score some

theorem coverageBonus_listed {delta : Value} (number : delta.fits .number = true) :
    Yields (coverageBonus delta) fun bonus => bonus ∈ [-40, -15, 5, 0] := by
  refine (Value.notAfter_yields number rfl).bind fun _ _ => .ite (.ok (by decide)) ?_
  refine (Value.before_yields number rfl).bind fun _ _ => .ite (.ok (by decide)) ?_
  exact (Value.before_yields rfl number).bind fun _ _ => .ite (.ok (by decide)) (.ok (by decide))

theorem scoreTests_found {ci : Value} {failed : Bool} (read : CiRead ci)
    (found : ciFailed ci = .ok failed) : Yields (scoreTests ci) (Dimension failed) := by
  refine .after found ?_
  cases failed with
  | true => exact .ok .zeroed
  | false =>
      refine read.delta.bind fun found fits => ?_
      cases found with
      | none =>
          exact ⟨_, clampScore_whole 90, .kept (.clamped (by decide : (5 : Int) ∣ 90)) (by decide)⟩
      | some delta =>
          refine (coverageBonus_listed (fits delta rfl)).bind fun bonus listed => ?_
          simp only [List.mem_cons, List.not_mem_nil, or_false] at listed
          exact ⟨_, clampScore_whole (90 + bonus), .kept (.clamped (by omega)) (by omega)⟩

theorem scoreSecurity_found {security : Value} {found : Bool}
    (ended : hasSecurityFindings security = .ok found) :
    Yields (scoreSecurity security) (Dimension found) :=
  .after ended (.ok (.of_found found ⟨by decide, by decide, by decide⟩ (by decide)))

theorem scoreOps_found {canary : Value} {failed : Bool} (ended : canaryFailed canary = .ok failed) :
    Yields (scoreOps canary) (Dimension failed) := by
  by_cases there : canary.truthy = true
  · rw [scoreOps, there]
    exact .after ended (.ok (.of_found failed ⟨by decide, by decide, by decide⟩ (by decide)))
  · have absent : canary.truthy = false := Bool.eq_false_iff.2 there
    rw [canaryFailed, absent] at ended
    cases ended
    rw [scoreOps, absent]
    exact .ok (.kept ⟨by decide, by decide, by decide⟩ (by decide))

theorem penalties_fives {flags : Value} (read : Verdict.FlagsRead flags)
    (table : List (Text × Int)) (fives : ∀ entry ∈ table, 5 ∣ entry.2) :
    Yields (penalties flags table) fun i => 5 ∣ i := by
  induction table with
  | nil => exact .ok (by decide)
  | cons entry rest ih =>
      obtain ⟨first, others⟩ := List.forall_mem_cons.1 fives
      refine (read.find entry.1).bind fun found _ => (ih others).bind fun sum more => .ok ?_
      apply Int.dvd_add _ more
      split
      · exact first
      · exact Int.dvd_zero 5

theorem sizePenalty_fives {files : Value} (integer : files.fits .integer = true) :
    Yields (sizePenalty files) fun i => 5 ∣ i := by
  have number := Value.fits_number_of_integer integer
  refine (Value.before_yields rfl number).bind fun _ _ => .ite (.ok (by decide)) ?_
  exact (Value.before_yields rfl number).bind fun _ _ => .ite (.ok (by decide)) (.ok (by decide))

theorem pathPenalty_fives {found : Option Value}
    (texts : ∀ v ∈ found, ∃ ps, v = .list ps ∧ ∀ p ∈ ps, ∃ s, p = .str s) :
    Yields (pathPenalty found) fun i => 5 ∣ i := by
  cases found with
  | none => exact .ok (by decide)
  | some paths =>
      obtain ⟨ps, rfl, strings⟩ := texts paths rfl
      refine .ite (.ok (by decide)) ?_
      refine (anyItem_yields fun p hp => ?_).bind fun risky _ => .ok ?_
      · obtain ⟨s, rfl⟩ := strings p hp
        exact isRiskyPath_yields s riskyPathParts
      · cases risky <;> decide

theorem scoreRisk_fives {summary : Value} (read : SummaryRead summary) :
    Yields (scoreRisk summary) Fives := by
  refine read.flags.bind fun flags flagsRead => ?_
  refine (penalties_fives flagsRead flagPenalties (by decide)).bind fun flagged hf => ?_
  refine read.files.bind fun files integer => (sizePenalty_fives integer).bind fun size hs => ?_
  refine read.paths.bind fun found texts => (pathPenalty_fives texts).bind fun paths hp => ?_
  exact ⟨_, clampScore_whole _, .clamped (by omega)⟩

/-- Asking the rules one by one whether they block comes to asking their severities together. -/
theorem blocks_of_severities {rs severities : List Value}
    (read : rs.mapM (fun r => r.need "severity") = (.ok severities : Except Misfit (List Value))) :
    Value.anyItem (fun r => return (← r.need "severity").same (.str "BLOCK")) rs =
      .ok (severities.any fun s => s.same (.str "BLOCK")) := by
  induction rs generalizing severities with
  | nil =>
      cases read
      rfl
  | cons r rs ih =>
      rw [List.mapM_cons] at read
      obtain ⟨s, found, read⟩ := bind_eq_ok read
      obtain ⟨others, rest, same⟩ := bind_eq_ok read
      cases same
      rw [Value.anyItem, found, ih rest, List.any_cons]
      show (if s.same (.str "BLOCK") = true then Except.ok true else .ok _) = _
      cases s.same (.str "BLOCK") <;> rfl

theorem scorePolicy_found {snapshot : Value} {found : Bool} (read : SnapshotRead snapshot)
    (ended : Rationale.hasBlockingRule snapshot = .ok found) :
    Yields (scorePolicy snapshot) (Dimension found) := by
  obtain ⟨severities, listed, -⟩ := matchedSeverities_yields read
  have blocks : (severities.any fun s => s.same (.str "BLOCK")) = found := by
    obtain ⟨rules, foundRules, listed⟩ := bind_eq_ok listed
    obtain ⟨rs, walked, listed⟩ := bind_eq_ok listed
    obtain ⟨rules', foundRules', ended⟩ := bind_eq_ok ended
    cases foundRules.symm.trans foundRules'
    obtain ⟨rs', walked', ended⟩ := bind_eq_ok ended
    cases walked.symm.trans walked'
    exact Except.ok.inj ((blocks_of_severities listed).symm.trans ended)
  refine .after listed ?_
  rw [blocks]
  cases found with
  | true => exact .ok .zeroed
  | false =>
      rw [if_neg Bool.false_ne_true]
      refine .ite (.ok ?_) (.ite (.ok ?_) (.ok ?_))
      all_goals exact .kept ⟨by decide, by decide, by decide⟩ (by decide)

def weightQuanta (hundredths : Nat) : Nat := Double.nearest (hundredths * quantaPerUnit) 100

theorem weight_eq {c : Nat} (fits : Representable (weightQuanta c)) :
    weight c = .finite false (weightQuanta c) fits := by
  have sign : decide ((c : Int) < 0) = false := decide_eq_false (by omega)
  rw [weight, Double.ofQuotient, sign]
  exact dif_pos fits

/-- What rounding takes off the three weights, or adds to them, is half of what it may. -/
theorem weights_close : ∀ c ∈ [25, 20, 15], Representable (weightQuanta c) ∧
    weightQuanta c ≤ quantaPerUnit ∧
    2 * Nat.pow 2 53 * (c * quantaPerUnit) ≤
      2 * Nat.pow 2 53 * (100 * weightQuanta c) + 100 * weightQuanta c ∧
    2 * Nat.pow 2 53 * (100 * weightQuanta c) ≤
      2 * Nat.pow 2 53 * (c * quantaPerUnit) + 100 * weightQuanta c := by
  decide +kernel

/-- A weighted score is a whole number of quarters in doubles too. -/
theorem term_quarters {m e : Nat} (few : m ≤ 20) (listed : 5 * e ∈ [25, 20, 15]) :
    ((Double.ofInt (5 * (m : Int))).mul (weight (5 * e))).IsQuarters (m * e) := by
  obtain ⟨fits, most, least, greatest⟩ := weights_close (5 * e) listed
  have score : (Double.ofInt (5 * (m : Int))).IsQuarters (4 * (5 * m)) := by
    have whole : (5 * (m : Int)).toNat = 5 * m := by omega
    have exact_ := Double.ofInt_quarters (n := 5 * (m : Int)) (by omega) (few_quarters (by omega))
    rwa [whole] at exact_
  have small : 5 * m * weightQuanta (5 * e) < Nat.pow 2 (1072 + 53) := by
    have hundred : 5 * m ≤ 100 := by omega
    calc 5 * m * weightQuanta (5 * e) ≤ 100 * quantaPerUnit := Nat.mul_le_mul hundred most
      _ < Nat.pow 2 (1072 + 53) := by decide +kernel
  have product : m * e < Nat.pow 2 53 := by
    have share : e ≤ 5 := by
      simp only [List.mem_cons, List.not_mem_nil, or_false] at listed
      omega
    exact few_quarters (Nat.le_trans (Nat.mul_le_mul few share) (by decide))
  have whole : m * e * 100 = 4 * (5 * m * (5 * e)) := by
    have fives : 5 * m * (5 * e) = 5 * 5 * (m * e) := by ac_rfl
    omega
  rw [weight_eq fits]
  exact Double.mul_quarters score (by decide) ⟨least, greatest⟩ whole product small

/-- The weighted sum of multiples of five, each of them a whole number of quarters. -/
theorem weightedSum_quarters {t s o r p : Nat} (ht : t ≤ 20) (hs : s ≤ 20) (ho : o ≤ 20)
    (hr : r ≤ 20) (hp : p ≤ 20) :
    (weightedSum (5 * t) (5 * s) (5 * o) (5 * r) (5 * p)).IsQuarters
      (t * 5 + s * 5 + o * 4 + r * 3 + p * 3) := by
  have tests := term_quarters ht (e := 5) (by decide)
  have security := term_quarters hs (e := 5) (by decide)
  have ops := term_quarters ho (e := 4) (by decide)
  have risk := term_quarters hr (e := 3) (by decide)
  have policy := term_quarters hp (e := 3) (by decide)
  have two := Double.add_quarters tests security (few_quarters (by omega))
  have three := Double.add_quarters two ops (few_quarters (by omega))
  have four := Double.add_quarters three risk (few_quarters (by omega))
  exact Double.add_quarters four policy (few_quarters (by omega))

/-- The weighted sum of five scores is rounded as its exact value would be. -/
theorem clampScore_weightedSum {tests security ops risk policy : Int} (ht : Fives tests)
    (hs : Fives security) (ho : Fives ops) (hr : Fives risk) (hp : Fives policy) :
    clampScore (.float (weightedSum tests security ops risk policy)) =
      .ok ((25 * tests + 25 * security + 20 * ops + 15 * risk + 15 * policy + 50) / 100) := by
  obtain ⟨t, rfl, tFew⟩ := ht.multiple
  obtain ⟨s, rfl, sFew⟩ := hs.multiple
  obtain ⟨o, rfl, oFew⟩ := ho.multiple
  obtain ⟨r, rfl, rFew⟩ := hr.multiple
  obtain ⟨p, rfl, pFew⟩ := hp.multiple
  rw [clampScore_quarters (weightedSum_quarters tFew sFew oFew rFew pFew) (by omega)]
  exact congrArg Except.ok (by omega)

/-- A scorecard that shows these findings, with its overall score as a whole number. -/
structure Shows (f : Findings) (c : Scorecard) : Prop where
  tests : Dimension f.ci c.tests
  security : Dimension f.security c.security
  ops : Dimension f.canary c.ops
  risk : Fives c.risk
  policy : Dimension f.policy c.policy
  overall : c.overall =
    (25 * c.tests + 25 * c.security + 20 * c.ops + 15 * c.risk + 15 * c.policy + 50) / 100

theorem compute_shows {inputs snapshot : Value} (read : InputsRead inputs)
    (policyRead : SnapshotRead snapshot) :
    ∃ signals f, inputs.need "signals" = .ok signals ∧ f.Of signals snapshot ∧
      Yields (compute inputs snapshot) (Shows f) := by
  obtain ⟨signals, found, signalsRead⟩ := read.signals
  obtain ⟨f, findings⟩ := findings_of_read signalsRead policyRead
  obtain ⟨ci, foundCi, ciEnded⟩ := bind_eq_ok findings.ci
  obtain ⟨canary, foundCanary, canaryEnded⟩ := bind_eq_ok findings.canary
  obtain ⟨security, foundSecurity, securityEnded⟩ := bind_eq_ok findings.security
  refine ⟨signals, f, found, findings, .after found ?_⟩
  refine read.summary.bind fun summary summaryRead => .after foundCi ?_
  refine (scoreTests_found (signalsRead.ci.holds foundCi) ciEnded).bind fun tests ht => ?_
  refine .after foundSecurity ((scoreSecurity_found securityEnded).bind fun security hs => ?_)
  refine .after foundCanary ((scoreOps_found canaryEnded).bind fun ops ho => ?_)
  refine (scoreRisk_fives summaryRead).bind fun risk hr => ?_
  refine (scorePolicy_found policyRead findings.policy).bind fun policy hp => ?_
  refine .after (clampScore_weightedSum ht.toFives hs.toFives ho.toFives hr hp.toFives) ?_
  refine (riskLevelOf_yields _).bind fun level _ => ?_
  refine summaryRead.flags.bind fun flags flagsRead => ?_
  exact (raisedRisk_yields flagsRead level).bind fun _ _ => .ok ⟨ht, hs, ho, hr, hp, rfl⟩

theorem Fives.isScore {i : Int} (h : Fives i) : IsScore i := ⟨h.least, h.most⟩

/-- The overall score of checked inputs is their exact weighted sum, rounded once, a half up: no
double on the way to it is off. -/
theorem overall_exact {inputPath snapshotPath : Path} {inputs snapshot : Value}
    (clean : Contract.inputs inputPath inputs = [])
    (admitted : Contract.snapshot snapshotPath snapshot = []) :
    ∃ c, compute inputs snapshot = .ok c ∧
      IsScore c.tests ∧ IsScore c.security ∧ IsScore c.ops ∧ IsScore c.risk ∧ IsScore c.policy ∧
      clampScore (.float (weightedSum c.tests c.security c.ops c.risk c.policy)) = .ok c.overall ∧
      c.overall =
        (25 * c.tests + 25 * c.security + 20 * c.ops + 15 * c.risk + 15 * c.policy + 50) / 100 := by
  obtain ⟨-, f, -, -, c, scored, shows⟩ :=
    compute_shows (Verdict.inputs_read clean) (Verdict.snapshot_read admitted)
  have summed := clampScore_weightedSum shows.tests.toFives shows.security.toFives
    shows.ops.toFives shows.risk shows.policy.toFives
  rw [← shows.overall] at summed
  exact ⟨c, scored, shows.tests.isScore, shows.security.isScore, shows.ops.isScore,
    shows.risk.isScore, shows.policy.isScore, summed, shows.overall⟩

def touchingInputs : Value :=
  .object [("learning_mode", .bool false),
    ("change_summary", .object [("files_changed", .int 3),
      ("change_flags", .object (Contract.changeFlags.map fun flag => (flag, .bool false))),
      ("touched_paths", .list [.str "infra/main.tf"])]),
    ("signals", .object [("ci", .object [("status", .str "success")]),
      ("security", .object [("critical_count", .int 0), ("high_count", .int 0)])])]

/-- The exact sum is 84 and a half. -/
theorem overall_exact_half :
    Contract.inputs [] touchingInputs = [] ∧
    Contract.snapshot [] (Verdict.rollbackPart "policy_evaluation") = [] ∧
    compute touchingInputs (Verdict.rollbackPart "policy_evaluation") =
      .ok ⟨90, 90, 95, 70, 75, 85, .low⟩ ∧
    (85 : Int) = (25 * 90 + 25 * 90 + 20 * 70 + 15 * 95 + 15 * 75 + 50) / 100 := by
  have clean : Contract.inputs [] touchingInputs = [] := by decide +kernel
  have admitted : Contract.snapshot [] (Verdict.rollbackPart "policy_evaluation") = [] := by
    decide +kernel
  have scores : compute touchingInputs (Verdict.rollbackPart "policy_evaluation") =
      .ok ⟨90, 90, 95, 70, 75, 85, .low⟩ := eq_ok_of_toOption (by decide +kernel)
  obtain ⟨c, scored, -, -, -, -, -, -, exact_⟩ := overall_exact clean admitted
  cases scores.symm.trans scored
  exact ⟨clean, admitted, scores, exact_⟩

end Scorecard

end ReleaseGate
