import ReleaseGate.Error

/-!
Scores of a change on five dimensions, each from 0 to 100, their weighted overall score and the risk
level that follows from it. The documents scored here are read without a check; on checked ones no
reading fails.
-/

namespace ReleaseGate

inductive RiskLevel where
  | low
  | medium
  | high
  deriving DecidableEq

def RiskLevel.name : RiskLevel → Text
  | .low => "LOW"
  | .medium => "MEDIUM"
  | .high => "HIGH"

structure Scorecard where
  tests : Int
  security : Int
  risk : Int
  ops : Int
  policy : Int
  overall : Int
  riskLevel : RiskLevel
  deriving DecidableEq

namespace Scorecard

/-- Overall scores from which the risk is low, and from which it is not high. -/
def lowRiskFrom : Int := 75

def mediumRiskFrom : Int := 40

def maxErrorRate : Double := Double.ofDigits false [0] [0, 2] 0

def maxLatencyDelta : Int := 100

def flagPenalties : List (Text × Int) :=
  [("infra_change", 25), ("db_migration", 25), ("auth_change", 15), ("secrets_change", 20),
   ("dependency_change", 10), ("permission_change", 20)]

def riskyPathParts : List Text := ["infra", "cdk", "terraform", "database", "db", "secrets"]

/-- The nearest whole number, a half going up. -/
def roundHalfUp (x : Double) : Except Misfit Int :=
  match (x.add .half).floor?, x with
  | some i, _ => .ok i
  | none, .nan => .error .notANumber
  | none, _ => .error .tooLarge

/-- A score rounded half up and kept between 0 and 100. -/
def clampScore (v : Value) : Except Misfit Int := do
  if ← v.before (.int 0) then return 0
  else if ← (Value.int 100).before v then return 100
  else roundHalfUp (← v.asDouble)

/-- A number kept between zero and one; what is no number counts as zero. -/
def clampUnit (v : Value) : Except Misfit Double := do
  if ← (Value.float (.zero false)).before v then
    if ← v.before (.float .one) then v.asDouble else return .one
  else return .zero false

/-- Whether a canary is there and did not pass, or went over a limit. -/
def canaryFailed (canary : Value) : Except Misfit Bool := do
  if !canary.truthy then return false
  if !(← canary.need "passed").truthy then return true
  let overErrorRate ←
    match ← canary.findSome "error_rate" with
    | some rate => (Value.float maxErrorRate).before rate
    | none => pure false
  if overErrorRate then return true
  match ← canary.findSome "latency_delta" with
  | some delta => (Value.int maxLatencyDelta).before delta
  | none => return false

def hasSecurityFindings (security : Value) : Except Misfit Bool := do
  if ← (Value.int 0).before (← security.need "critical_count") then return true
  else (Value.int 0).before (← security.need "high_count")

def ciFailed (ci : Value) : Except Misfit Bool := do
  return (← ci.need "status").same (.str "failure")

def coverageBonus (delta : Value) : Except Misfit Int := do
  if ← delta.notAfter (.int (-5)) then return -40
  else if ← delta.before (.int 0) then return -15
  else if ← (Value.int 0).before delta then return 5
  else return 0

def scoreTests (ci : Value) : Except Misfit Int := do
  if ← ciFailed ci then return 0
  match ← ci.findSome "coverage_delta" with
  | none => clampScore (.int 90)
  | some delta => clampScore (.int (90 + (← coverageBonus delta)))

def scoreSecurity (security : Value) : Except Misfit Int := do
  return if ← hasSecurityFindings security then 0 else 90

/-- Without a canary the score is neutral. -/
def scoreOps (canary : Value) : Except Misfit Int := do
  if !canary.truthy then return 70
  return if ← canaryFailed canary then 0 else 90

def penalties (flags : Value) : List (Text × Int) → Except Misfit Int
  | [] => .ok 0
  | (flag, penalty) :: rest => do
      let set := ((← flags.find flag).getD .null).truthy
      return (if set then penalty else 0) + (← penalties flags rest)

def sizePenalty (filesChanged : Value) : Except Misfit Int := do
  if ← (Value.int 200).before filesChanged then return 20
  else if ← (Value.int 50).before filesChanged then return 10
  else return 0

def isRiskyPath (path : Value) : List Text → Except Misfit Bool
  | [] => .ok false
  | part :: parts => do
      if ← path.mentionsText part then return true else isRiskyPath path parts

/-- What a list of touched paths takes off; no list and an empty one take off nothing. -/
def pathPenalty (touched : Option Value) : Except Misfit Int := do
  match touched with
  | none => return 0
  | some paths =>
      if !paths.truthy then return 0
      return if ← Value.anyItem (isRiskyPath · riskyPathParts) (← paths.walk) then 5 else 0

def scoreRisk (summary : Value) : Except Misfit Int := do
  let flagged ← penalties (← summary.need "change_flags") flagPenalties
  let size ← sizePenalty (← summary.need "files_changed")
  let paths ← pathPenalty (← summary.find "touched_paths")
  clampScore (.int (100 - flagged - size - paths))

def matchedSeverities (snapshot : Value) : Except Misfit (List Value) := do
  (← (← snapshot.need "matched_rules").walk).mapM fun r => r.need "severity"

def scorePolicy (snapshot : Value) : Except Misfit Int := do
  let severities ← matchedSeverities snapshot
  if severities.any fun s => s.same (.str "BLOCK") then return 0
  else if severities.any fun s => s.same (.str "HIGH") then return 60
  else if severities.isEmpty then return 75
  else return 85

def riskLevelOf (overall : Value) : Except Misfit RiskLevel := do
  if ← (Value.int lowRiskFrom).notAfter overall then return .low
  else if ← (Value.int mediumRiskFrom).notAfter overall then return .medium
  else return .high

def weight (hundredths : Nat) : Double := Double.ofQuotient hundredths 100

/-- The weighted sum, added up in the order tests, security, ops, risk, policy. -/
def weightedSum (tests security ops risk policy : Int) : Double :=
  let term (score : Int) (hundredths : Nat) := (Double.ofInt score).mul (weight hundredths)
  ((((term tests 25).add (term security 25)).add (term ops 20)).add (term risk 15)).add
    (term policy 15)

/-- The risk level after changes to infrastructure and to the database: both make it high, one makes
a low one medium. -/
def raisedRisk (flags : Value) (level : RiskLevel) : Except Misfit RiskLevel := do
  let infra := (← flags.need "infra_change").truthy
  let db := (← flags.need "db_migration").truthy
  if infra && db then return .high
  else if (infra || db) && level = .low then return .medium
  else return level

def compute (inputs snapshot : Value) : Except Misfit Scorecard := do
  let signals ← inputs.need "signals"
  let summary ← inputs.need "change_summary"
  let tests ← scoreTests (← signals.need "ci")
  let security ← scoreSecurity (← signals.need "security")
  let ops ← scoreOps ((← signals.find "canary").getD .null)
  let risk ← scoreRisk summary
  let policy ← scorePolicy snapshot
  let overall ← clampScore (.float (weightedSum tests security ops risk policy))
  let level ← riskLevelOf (.int overall)
  let riskLevel ← raisedRisk (← summary.need "change_flags") level
  return ⟨tests, security, risk, ops, policy, overall, riskLevel⟩

def toValue (s : Scorecard) : Value :=
  .object [
    ("overall", .int s.overall),
    ("dimensions", .object [("tests", .int s.tests), ("security", .int s.security),
      ("risk", .int s.risk), ("ops", .int s.ops), ("policy", .int s.policy)]),
    ("risk_level", .str s.riskLevel.name)]

def perCent (v : Value) : Except Misfit Double :=
  match v with
  | .float x => .ok (x.divNat 100)
  | .int i => ofWhole i
  | .bool b => ofWhole (if b then 1 else 0)
  | _ => .error .wrongType
where
  ofWhole (i : Int) : Except Misfit Double :=
    if (Double.ofQuotient i 100).isFinite then .ok (Double.ofQuotient i 100)
    else .error .tooLarge

/-- The number with two places, a half going away from zero; at most 28 digits can be kept. -/
def toHundredths : Double → Except Misfit Double
  | .nan => .ok .nan
  | .infinite _ => .error .notQuantizable
  | .finite negative quanta _ =>
      let n := (200 * quanta + quantaPerUnit) / (2 * quantaPerUnit)
      if n < Nat.pow 10 28 then .ok (Double.ofRatio negative (n * quantaPerUnit) 100)
      else .error .notQuantizable

/-- The confidence for an overall score and a risk level, between zero and one with two places. -/
def confidence (overall riskLevel : Value) : Except Misfit Double := do
  let base ← perCent overall
  let raw :=
    if riskLevel = .str RiskLevel.low.name then Double.half.add (base.mul .half)
    else if riskLevel = .str RiskLevel.medium.name then base.mul (Double.ofQuotient 3 4)
    else base.mul .half
  clampUnit (.float (← toHundredths raw))

end Scorecard

end ReleaseGate
