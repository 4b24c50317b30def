import ReleaseGate.Proofs.Number.Monotone
import ReleaseGate.Proofs.Verdict.Riskier

/-!
Scores of a riskier change. None of its five scores is higher than that of the other change, nor is
their rounded sum; its risk level is not lower, and its confidence not greater.
-/

namespace ReleaseGate

def RiskLevel.rank : RiskLevel → Nat
  | .low => 0
  | .medium => 1
  | .high => 2

open Verdict (CiRead SecurityRead SignalsRead FlagsRead SummaryRead InputsRead SnapshotRead
  CiRiskier
  SecurityRiskier CanaryRiskier SummaryRiskier Riskier)

namespace Scorecard

-- The number of quanta in a unit counts here by name only.
attribute [local irreducible] quantaPerUnit

/-- Scores of which the second is at most the first. -/
structure Falls (i j : Int) : Prop where
  least : 0 ≤ j
  le : j ≤ i
  most : i ≤ 100

theorem Falls.of_scores {i j : Int} (hi : IsScore i) (hj : IsScore j) (le : j ≤ i) : Falls i j :=
  ⟨hj.1, le, hi.2⟩

theorem falls_refl {x : Except Misfit Int} (h : Yields x IsScore) : Alongside x x Falls := by
  refine (Alongside.refl h).mono ?_
  rintro i _ ⟨rfl, score⟩
  exact .of_scores score score (Int.le_refl i)

theorem falls_zero {x y : Except Misfit Int} (h : Yields x IsScore) (zero : y = .ok 0) :
    Alongside x y Falls := by
  obtain ⟨i, ended, score⟩ := h
  exact ⟨i, 0, ended, zero, .of_scores score ⟨by decide, by decide⟩ score.1⟩

theorem roundHalfUp_falls {x y : Double} (h : Double.Ascending (100 * quantaPerUnit) y x) :
    Alongside (roundHalfUp x) (roundHalfUp y) Falls := by
  obtain ⟨i, ended, hi⟩ := roundHalfUp_yields h.right
  obtain ⟨j, ended', hj⟩ := roundHalfUp_yields h.left
  refine ⟨i, j, ended, ended', .of_scores hi hj ?_⟩
  have sum := Double.add_ascending h Double.half_upTo.ascending (by decide +kernel)
  have floor {z : Double} {k : Int} (ended : roundHalfUp z = .ok k) :
      (z.add .half).floor? = some k := by
    unfold roundHalfUp at ended
    split at ended
    · rename_i found
      cases ended
      exact found
    · cases ended
    · cases ended
  exact Double.floor_mono sum (floor ended') (floor ended)

/-- Of two numbers in order the clamped ones are in order too. -/
theorem clampScore_falls {v w : Value} {a b : Int} (hv : v.place? = some (some (.at a)))
    (hw : w.place? = some (some (.at b))) (score : Yields (clampScore v) IsScore)
    (score' : Yields (clampScore w) IsScore) (le : b ≤ a)
    (inside : 0 ≤ b → a ≤ 100 * quantaPerUnit →
      ∃ x y, v.asDouble = .ok x ∧ w.asDouble = .ok y ∧
        Double.Ascending (100 * quantaPerUnit) y x) :
    Alongside (clampScore v) (clampScore w) Falls := by
  have low := Value.before_at hv (w := .int 0) rfl
  have low' := Value.before_at hw (w := .int 0) rfl
  have high := Value.before_at (v := .int 100) rfl hv
  have high' := Value.before_at (v := .int 100) rfl hw
  by_cases negative : b < 0 * quantaPerUnit
  · refine falls_zero score ?_
    rw [clampScore, low', decide_eq_true negative]
    rfl
  · by_cases above : 100 * (quantaPerUnit : Int) < a
    · obtain ⟨j, ended, hj⟩ := score'
      refine ⟨100, j, ?_, ended, .of_scores ⟨by decide, by decide⟩ hj hj.2⟩
      rw [clampScore, low, high, decide_eq_true above, decide_eq_false (by omega)]
      rfl
    · obtain ⟨x, y, double, double', ascends⟩ := inside (by omega) (by omega)
      rw [clampScore, low, high, clampScore, low', high', decide_eq_false negative,
        decide_eq_false above, decide_eq_false (by omega : ¬ a < 0 * (quantaPerUnit : Int)),
        decide_eq_false (by omega : ¬ 100 * (quantaPerUnit : Int) < b)]
      show Alongside (v.asDouble >>= roundHalfUp) (w.asDouble >>= roundHalfUp) Falls
      rw [double, double']
      exact roundHalfUp_falls ascends

theorem clampScore_int_falls {i j : Int} (le : j ≤ i) :
    Alongside (clampScore (.int i)) (clampScore (.int j)) Falls := by
  have units : (0 : Int) < quantaPerUnit := Int.natCast_pos.2 Double.quantaPerUnit_pos
  refine clampScore_falls (a := i * quantaPerUnit) (b := j * quantaPerUnit) rfl rfl
    (clampScore_int i) (clampScore_int j) (Int.mul_le_mul_of_nonneg_right le (Int.le_of_lt units))
    fun least most => ?_
  have small : i ≤ 100 := Int.le_of_mul_le_mul_right most units
  have nonneg : 0 ≤ j := Int.le_of_mul_le_mul_right (by omega) units
  have ascends := Double.ofInt_ascending (n := 100) (by decide +kernel) nonneg le small
  exact ⟨_, _, asDouble_int ascends.right, asDouble_int ascends.left, ascends⟩

theorem clampScore_float_falls {most : Nat} {x y : Double} (h : Double.Ascending most y x) :
    Alongside (clampScore (.float x)) (clampScore (.float y)) Falls := by
  have score := clampScore_float h.right
  have score' := clampScore_float h.left
  obtain ⟨q, p, hq, hp, rfl, rfl, le, -⟩ := h
  refine clampScore_falls (a := p) (b := q) rfl rfl score score' (Int.ofNat_le.2 le)
    fun _ bound => ⟨_, _, rfl, rfl, q, p, hq, hp, rfl, rfl, le, ?_⟩
  omega

/-- A sum of smaller scores is no larger, also in doubles. -/
theorem weightedSum_ascending {tests tests' security security' ops ops' risk risk' policy policy'
    : Int} (ht : Falls tests tests') (hs : Falls security security') (ho : Falls ops ops')
    (hr : Falls risk risk') (hp : Falls policy policy') :
    ∃ most, Double.Ascending most (weightedSum tests' security' ops' risk' policy')
      (weightedSum tests security ops risk policy) := by
  have share {n : Nat} (h : n ≤ 100) : (weight n).UpTo (1 * quantaPerUnit) :=
    Double.ofQuotient_upTo (by decide) (by decide +kernel) (Int.natCast_nonneg n) (by omega)
  have term {i j : Int} {n : Nat} (h : Falls i j) (hn : n ≤ 100) :
      Double.Ascending (100 * quantaPerUnit) ((Double.ofInt j).mul (weight n))
        ((Double.ofInt i).mul (weight n)) :=
    Double.mul_ascending (Double.ofInt_ascending (n := 100) (by decide +kernel) h.least h.le h.most)
      (share hn).ascending (by decide +kernel) (Nat.le_of_eq (by rw [Nat.one_mul]))
  have two := Double.add_ascending (term ht (n := 25) (by decide)) (term hs (n := 25) (by decide))
    (by decide +kernel)
  have three := Double.add_ascending two (term ho (n := 20) (by decide)) (by decide +kernel)
  have four := Double.add_ascending three (term hr (n := 15) (by decide)) (by decide +kernel)
  exact ⟨_, Double.add_ascending four (term hp (n := 15) (by decide)) (by decide +kernel)⟩

def bonusAt (p : Point) : Int :=
  if p.le (.at (-5 * quantaPerUnit)) then -40
  else if p.lt (.at 0) then -15
  else if Point.lt (.at 0) p then 5
  else 0

theorem coverageBonus_at {delta : Value} {p : Point} (h : delta.place? = some (some p)) :
    coverageBonus delta = .ok (bonusAt p) := by
  have zero : (Value.int 0).place? = some (some (.at 0)) :=
    congrArg (fun i => some (some (Point.at i))) (Int.zero_mul _)
  have fifth : (Value.int (-5)).place? = some (some (.at (-5 * quantaPerUnit))) := rfl
  rw [coverageBonus, Value.notAfter, Value.notAfter?_of_places h fifth, Value.before, Value.before,
    Value.before?_of_places h zero, Value.before?_of_places zero h]
  show (if p.le (.at (-5 * quantaPerUnit)) = true then Except.ok (-40)
    else if p.lt (.at 0) = true then .ok (-15)
    else if Point.lt (.at 0) p = true then .ok 5 else .ok 0) = _
  unfold bonusAt
  split
  · rfl
  · split
    · rfl
    · split <;> rfl

/-- A smaller change of coverage earns no larger bonus. -/
theorem bonusAt_mono {p q : Point} (le : q.le p = true) : bonusAt q ≤ bonusAt p := by
  have units : (0 : Int) ≤ quantaPerUnit := Int.natCast_nonneg _
  cases p <;> cases q <;> simp_all [bonusAt, Point.le, Point.lt] <;> split <;> omega

theorem coverageBonus_falls {delta delta' : Value} (number : delta.fits .number = true)
    (number' : delta'.fits .number = true) (le : delta'.notAfter? delta = some true) :
    Alongside (coverageBonus delta) (coverageBonus delta') fun i j => j ≤ i := by
  obtain ⟨q, p, place', place, le⟩ := Value.exists_points number' number le
  rw [coverageBonus_at place, coverageBonus_at place']
  exact .ok (bonusAt_mono le)

theorem scoreTests_falls {ci ci' : Value} (read : CiRead ci) (read' : CiRead ci')
    (riskier : CiRiskier ci ci') : Alongside (scoreTests ci) (scoreTests ci') Falls := by
  obtain ⟨failed, failed', ended, ended', le⟩ := ciFailed_alongside read read' riskier
  cases failed' with
  | true =>
      refine falls_zero (scoreTests_yields read) ?_
      rw [scoreTests, ended']
      rfl
  | false =>
      obtain rfl : failed = false := Bool.eq_false_of_le_false le
      rw [scoreTests, scoreTests, ended, ended']
      obtain ⟨absent, absent'⟩ | le := riskier.coverage
      · rw [Value.findSome_of_absent read.delta absent,
        Value.findSome_of_absent read'.delta absent']
        exact clampScore_int_falls (Int.le_refl 90)
      · obtain ⟨there, there'⟩ := Value.ne_null_of_notAfter le
        obtain ⟨found, number⟩ := Value.findSome_of_part read.delta there'
        obtain ⟨found', number'⟩ := Value.findSome_of_part read'.delta there
        rw [found, found']
        refine (coverageBonus_falls (number _ rfl) (number' _ rfl) le).bind fun i j le => ?_
        exact clampScore_int_falls (Int.add_le_add_left le 90)

theorem scoreSecurity_falls {security security' : Value} (read : SecurityRead security)
    (read' : SecurityRead security') (riskier : SecurityRiskier security security') :
    Alongside (scoreSecurity security) (scoreSecurity security') Falls := by
  refine (hasSecurityFindings_alongside read read' riskier).bind fun found found' le => .ok ?_
  cases found' with
  | true => cases found <;> exact ⟨by decide, by decide, by decide⟩
  | false =>
      obtain rfl : found = false := Bool.eq_false_of_le_false le
      exact ⟨by decide, by decide, by decide⟩

theorem scoreOps_falls {signals signals' : Value} (read : SignalsRead signals)
    (read' : SignalsRead signals')
    (riskier : CanaryRiskier (signals.part "canary") (signals'.part "canary")) :
    Alongside (scoreOps (signals.part "canary")) (scoreOps (signals'.part "canary")) Falls := by
  have score : Yields (scoreOps (signals.part "canary")) IsScore :=
    scoreOps_yields (Value.find_eq read.canary).2
  obtain same | failed := riskier
  · obtain ⟨there, ended⟩ := canary_of_members read read' same
    have equal : scoreOps (signals'.part "canary") = scoreOps (signals.part "canary") := by
      rw [scoreOps, scoreOps, there, ended]
    rw [equal]
    exact falls_refl score
  · refine falls_zero score ?_
    have there : (signals'.part "canary").truthy = true := by
      obtain none | some := canary_absent_or_read read'
      · rw [none] at failed
        cases failed
      · exact truthy_of_canaryRead some
    rw [scoreOps, there, failed]
    rfl

theorem penalties_alongside {flags flags' : Value} (read : FlagsRead flags)
    (read' : FlagsRead flags') (table : List (Text × Int))
    (set : ∀ entry ∈ table, 0 ≤ entry.2 ∧
      ((flags.part entry.1).truthy = true → (flags'.part entry.1).truthy = true)) :
    Alongside (penalties flags table) (penalties flags' table) fun i j => i ≤ j := by
  induction table with
  | nil => exact .ok (Int.le_refl 0)
  | cons entry rest ih =>
      obtain ⟨⟨penalty, kept⟩, set⟩ := List.forall_mem_cons.1 set
      refine (Value.find_alongside (read.find entry.1) (read'.find entry.1)).bind fun _ _ both => ?_
      obtain ⟨⟨rfl, -⟩, rfl, -⟩ := both
      refine (ih set).bind fun i j le => .ok (Int.add_le_add ?_ le)
      show (if (flags.part entry.1).truthy = true then entry.2 else 0) ≤
        if (flags'.part entry.1).truthy = true then entry.2 else 0
      split
      · rename_i on
        exact Int.le_of_eq (if_pos (kept on)).symm
      · split
        · exact penalty
        · exact Int.le_refl 0

theorem sizePenalty_eq {files : Value} {many some : Bool}
    (over200 : (Value.int 200).before files = .ok many)
    (over50 : (Value.int 50).before files = .ok some) :
    sizePenalty files = .ok (if many then 20 else if some then 10 else 0) := by
  rw [sizePenalty, over200]
  cases many with
  | true => rfl
  | false =>
      show ((Value.int 50).before files >>= _) = _
      rw [over50]
      cases some <;> rfl

theorem sizePenalty_alongside {files files' : Value} (integer : files.fits .integer = true)
    (integer' : files'.fits .integer = true) (le : files.notAfter? files' = some true) :
    Alongside (sizePenalty files) (sizePenalty files') fun i j => i ≤ j := by
  have exceeds (limit : Int) := Value.before_alongside (u := .int limit) rfl
    (Value.fits_number_of_integer integer) (Value.fits_number_of_integer integer') le
  obtain ⟨many, many', over200, over200', less⟩ := exceeds 200
  obtain ⟨some, some', over50, over50', less'⟩ := exceeds 50
  rw [sizePenalty_eq over200 over50, sizePenalty_eq over200' over50']
  refine .ok ?_
  revert less less'
  cases many <;> cases many' <;> cases some <;> cases some' <;> decide

theorem anyItem_iff {test : Value → Except Misfit Bool} {vs : List Value}
    (h : ∀ v ∈ vs, Yields (test v) fun _ => True) :
    Value.anyItem test vs = .ok true ↔ ∃ v ∈ vs, test v = .ok true := by
  induction vs with
  | nil => exact iff_of_false (fun h => nomatch h) fun ⟨_, h, _⟩ => nomatch h
  | cons v vs ih =>
      obtain ⟨⟨b, ended, -⟩, rest⟩ := List.forall_mem_cons.1 h
      rw [Value.anyItem, ended]
      cases b with
      | true => exact iff_of_true rfl ⟨v, List.mem_cons_self, ended⟩
      | false =>
          refine (ih rest).trans ⟨fun ⟨w, hw, found⟩ => ⟨w, List.mem_cons_of_mem v hw, found⟩, ?_⟩
          rintro ⟨w, hw, found⟩
          obtain rfl | later := List.mem_cons.1 hw
          · cases ended.symm.trans found
          · exact ⟨w, later, found⟩

/-- A test that holds of some item holds of some item of a larger list. -/
theorem anyItem_alongside {test : Value → Except Misfit Bool} {vs ws : List Value}
    (hv : ∀ v ∈ vs, Yields (test v) fun _ => True) (hw : ∀ w ∈ ws, Yields (test w) fun _ => True)
    (sub : ∀ v ∈ vs, v ∈ ws) :
    Alongside (Value.anyItem test vs) (Value.anyItem test ws) fun x y => x ≤ y := by
  obtain ⟨x, ended, -⟩ := anyItem_yields hv
  obtain ⟨y, ended', -⟩ := anyItem_yields hw
  refine ⟨x, y, ended, ended', ?_⟩
  rintro rfl
  obtain ⟨v, member, found⟩ := (anyItem_iff hv).1 ended
  exact Except.ok.inj (ended'.symm.trans ((anyItem_iff hw).2 ⟨v, sub v member, found⟩))

theorem isRiskyPath_texts {paths : List Value} (texts : ∀ p ∈ paths, ∃ s, p = .str s) :
    ∀ p ∈ paths, Yields (isRiskyPath p riskyPathParts) fun _ => True := by
  intro p hp
  obtain ⟨s, rfl⟩ := texts p hp
  exact isRiskyPath_yields s riskyPathParts

/-- No list of paths takes off what an empty one does. -/
theorem pathPenalty_items {found : Option Value}
    (texts : ∀ v ∈ found, ∃ ps, v = .list ps ∧ ∀ p ∈ ps, ∃ s, p = .str s) :
    (∀ p ∈ (found.getD .null).items, ∃ s, p = .str s) ∧
      pathPenalty found =
        (Value.anyItem (isRiskyPath · riskyPathParts) (found.getD .null).items).map
          fun risky => if risky then 5 else 0 := by
  cases found with
  | none => exact ⟨fun _ h => (nomatch h), rfl⟩
  | some paths =>
      obtain ⟨ps, rfl, strings⟩ := texts paths rfl
      refine ⟨strings, ?_⟩
      cases ps with
      | nil => rfl
      | cons p ps => rfl

theorem pathPenalty_alongside {found found' : Option Value}
    (texts : ∀ v ∈ found, ∃ ps, v = .list ps ∧ ∀ p ∈ ps, ∃ s, p = .str s)
    (texts' : ∀ v ∈ found', ∃ ps, v = .list ps ∧ ∀ p ∈ ps, ∃ s, p = .str s)
    (sub : ∀ p ∈ (found.getD .null).items, p ∈ (found'.getD .null).items) :
    Alongside (pathPenalty found) (pathPenalty found') fun i j => i ≤ j := by
  obtain ⟨strings, penalty⟩ := pathPenalty_items texts
  obtain ⟨strings', penalty'⟩ := pathPenalty_items texts'
  obtain ⟨risky, risky', ended, ended', le⟩ :=
    anyItem_alongside (isRiskyPath_texts strings) (isRiskyPath_texts strings') sub
  rw [penalty, penalty', ended, ended']
  refine .ok ?_
  revert le
  cases risky <;> cases risky' <;> decide

theorem flagPenalties_set {flags flags' : Value}
    (kept : ∀ flag ∈ Contract.changeFlags, (flags.part flag).truthy = true →
      (flags'.part flag).truthy = true) :
    ∀ entry ∈ flagPenalties, 0 ≤ entry.2 ∧
      ((flags.part entry.1).truthy = true → (flags'.part entry.1).truthy = true) := by
  have listed : ∀ entry ∈ flagPenalties, 0 ≤ entry.2 ∧ entry.1 ∈ Contract.changeFlags := by decide
  exact fun entry member => ⟨(listed entry member).1, kept entry.1 (listed entry member).2⟩

/-- A riskier change scores no better. -/
theorem scoreRisk_falls {summary summary' : Value} (read : SummaryRead summary)
    (read' : SummaryRead summary') (riskier : SummaryRiskier summary summary') :
    Alongside (scoreRisk summary) (scoreRisk summary') Falls := by
  refine (Value.need_alongside read.flags read'.flags).bind fun _ _ both => ?_
  obtain ⟨⟨rfl, flagsRead⟩, rfl, flagsRead'⟩ := both
  refine (penalties_alongside flagsRead flagsRead' flagPenalties
    (flagPenalties_set riskier.flags)).bind fun flagged flagged' more => ?_
  refine (Value.need_alongside read.files read'.files).bind fun _ _ both => ?_
  obtain ⟨⟨rfl, integer⟩, rfl, integer'⟩ := both
  refine (sizePenalty_alongside integer integer' riskier.files).bind fun size size' larger => ?_
  refine (Value.find_alongside read.paths read'.paths).bind fun _ _ both => ?_
  obtain ⟨⟨rfl, texts⟩, rfl, texts'⟩ := both
  refine (pathPenalty_alongside texts texts' riskier.paths).bind fun paths paths' wider => ?_
  exact clampScore_int_falls (by omega)

theorem before_int (i j : Int) : (Value.int i).before (.int j) = .ok (decide (i < j)) := by
  have units : (0 : Int) < quantaPerUnit := Int.natCast_pos.2 Double.quantaPerUnit_pos
  rw [Value.before_at rfl rfl, decide_eq_decide.2 (Int.mul_lt_mul_right units)]

theorem notAfter_int (i j : Int) : (Value.int i).notAfter (.int j) = .ok (decide (i ≤ j)) := by
  have units : (0 : Int) < quantaPerUnit := Int.natCast_pos.2 Double.quantaPerUnit_pos
  rw [Value.notAfter, Value.notAfter?_at rfl rfl, decide_eq_decide.2 (Int.mul_le_mul_right units)]

theorem riskLevelOf_int (i : Int) :
    riskLevelOf (.int i) =
      .ok (if lowRiskFrom ≤ i then .low else if mediumRiskFrom ≤ i then .medium else .high) := by
  rw [riskLevelOf, notAfter_int, notAfter_int]
  by_cases low : lowRiskFrom ≤ i
  · rw [decide_eq_true low, if_pos low]
    rfl
  · rw [decide_eq_false low, if_neg low]
    by_cases medium : mediumRiskFrom ≤ i
    · rw [decide_eq_true medium, if_pos medium]
      rfl
    · rw [decide_eq_false medium, if_neg medium]
      rfl

theorem riskLevelOf_alongside {i j : Int} (le : j ≤ i) :
    Alongside (riskLevelOf (.int i)) (riskLevelOf (.int j)) fun k l => k.rank ≤ l.rank := by
  rw [riskLevelOf_int, riskLevelOf_int]
  refine .ok ?_
  by_cases low : lowRiskFrom ≤ i
  · rw [if_pos low]
    exact Nat.zero_le _
  · rw [if_neg low, if_neg fun low' => low (Int.le_trans low' le)]
    by_cases medium : mediumRiskFrom ≤ i
    · rw [if_pos medium]
      split <;> decide
    · refine Nat.le_of_eq ?_
      rw [if_neg medium, if_neg fun medium' => medium (Int.le_trans medium' le)]

def raised (infra db : Bool) (level : RiskLevel) : RiskLevel :=
  if infra && db then .high else if (infra || db) && level = .low then .medium else level

theorem raised_mono {infra infra' db db' : Bool} {level level' : RiskLevel} (hi : infra ≤ infra')
    (hd : db ≤ db') (le : level.rank ≤ level'.rank) :
    (raised infra db level).rank ≤ (raised infra' db' level').rank := by
  revert infra infra' db db' le
  cases level <;> cases level' <;> decide

theorem raisedRisk_alongside {flags flags' : Value} {level level' : RiskLevel}
    (read : FlagsRead flags) (read' : FlagsRead flags')
    (kept : ∀ flag ∈ Contract.changeFlags, (flags.part flag).truthy = true →
      (flags'.part flag).truthy = true) (le : level.rank ≤ level'.rank) :
    Alongside (raisedRisk flags level) (raisedRisk flags' level') fun k l => k.rank ≤ l.rank := by
  have raise {flags : Value} (read : FlagsRead flags) (level : RiskLevel) :
      raisedRisk flags level =
        .ok (raised (flags.part "infra_change").truthy (flags.part "db_migration").truthy
          level) := by
    obtain ⟨infra, infraFound, -⟩ := read.infra
    obtain ⟨db, dbFound, -⟩ := read.db
    rw [raisedRisk, infraFound, dbFound, Value.part_of_need infraFound, Value.part_of_need dbFound,
      raised]
    show (if _ then _ else _) = _
    split
    · rfl
    · split <;> rfl
  rw [raise read level, raise read' level']
  exact .ok (raised_mono (kept "infra_change" (by decide)) (kept "db_migration" (by decide)) le)

/-- The scores of a riskier change. -/
structure Worse (s t : Scorecard) : Prop where
  overall : Falls s.overall t.overall
  level : s.riskLevel.rank ≤ t.riskLevel.rank

/-- Riskier inputs give a scorecard with no higher score and no lower risk. -/
theorem compute_alongside {inputs inputs' snapshot : Value} (read : InputsRead inputs)
    (read' : InputsRead inputs') (policyRead : SnapshotRead snapshot)
    (riskier : Riskier inputs inputs') :
    Alongside (compute inputs snapshot) (compute inputs' snapshot) Worse := by
  refine (Value.need_alongside read.signals read'.signals).bind fun _ _ both => ?_
  obtain ⟨⟨rfl, signalsRead⟩, rfl, signalsRead'⟩ := both
  refine (Value.need_alongside read.summary read'.summary).bind fun _ _ both => ?_
  obtain ⟨⟨rfl, summaryRead⟩, rfl, summaryRead'⟩ := both
  refine (Value.need_alongside signalsRead.ci signalsRead'.ci).bind fun _ _ both => ?_
  obtain ⟨⟨rfl, ciRead⟩, rfl, ciRead'⟩ := both
  refine (scoreTests_falls ciRead ciRead' riskier.signals.ci).bind fun tests tests' ht => ?_
  refine (Value.need_alongside signalsRead.security signalsRead'.security).bind fun _ _ both => ?_
  obtain ⟨⟨rfl, securityRead⟩, rfl, securityRead'⟩ := both
  refine (scoreSecurity_falls securityRead securityRead' riskier.signals.security).bind
    fun security security' hs => ?_
  refine (Value.find_alongside signalsRead.canary signalsRead'.canary).bind fun _ _ both => ?_
  obtain ⟨⟨rfl, -⟩, rfl, -⟩ := both
  refine (scoreOps_falls signalsRead signalsRead' riskier.signals.canary).bind
    fun ops ops' ho => ?_
  refine (scoreRisk_falls summaryRead summaryRead' riskier.summary).bind fun risk risk' hr => ?_
  refine (falls_refl (scorePolicy_yields policyRead)).bind fun policy policy' hp => ?_
  obtain ⟨most, sum⟩ := weightedSum_ascending ht hs ho hr hp
  refine (clampScore_float_falls sum).bind fun overall overall' total => ?_
  refine (riskLevelOf_alongside total.le).bind fun level level' higher => ?_
  refine (Value.need_alongside summaryRead.flags summaryRead'.flags).bind fun _ _ both => ?_
  obtain ⟨⟨rfl, flagsRead⟩, rfl, flagsRead'⟩ := both
  exact (raisedRisk_alongside flagsRead flagsRead' riskier.summary.flags higher).bind
    fun raised raised' higher => .ok ⟨total, higher⟩

end Scorecard

end ReleaseGate
