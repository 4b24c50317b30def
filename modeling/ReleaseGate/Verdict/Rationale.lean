import ReleaseGate.Verdict.Scorecard

/-!
Why a verdict proposes what it does: blockers, risk flags and next steps, each looked for in a fixed
order. A step that several reasons call for is listed once, at its first place.
-/

namespace ReleaseGate

structure Rationale where
  summary : Text
  evidence : List Value
  steps : List Text
  blockers : List Text
  riskFlags : List Text
  deriving DecidableEq

/-- The elements without the repetitions of earlier ones. -/
def dedupeBy {α : Type} (same : α → α → Bool) (xs : List α) : List α :=
  go [] xs
where
  /-- The elements that repeat none of `seen` nor one another. -/
  go (seen : List α) : List α → List α
    | [] => []
    | x :: xs => if seen.any (same · x) then go seen xs else x :: go (x :: seen) xs

/-- Values without repetitions, where numbers of different types can be the same. -/
def dedupeValues (vs : List Value) : Except Misfit (List Value) :=
  if vs.all Value.hashable then .ok (dedupeBy Value.same vs) else .error .wrongType

namespace Rationale

structure Blocker where
  text : Text
  step : Text
  deriving DecidableEq

def ciBlocker : Blocker := ⟨"CI failed", "Fix CI failures and rerun checks"⟩

def canaryBlocker : Blocker := ⟨"Canary failed", "Investigate canary degradation"⟩

def securityBlocker : Blocker :=
  ⟨"Security findings present", "Resolve security critical/high findings"⟩

def policyBlocker : Blocker := ⟨"Policy BLOCK rule matched", "Address policy BLOCK conditions"⟩

def flagSteps : List (Text × Text) :=
  [("infra_change", "Review infra diff (CDK)"),
   ("db_migration", "Add migration rollback plan"),
   ("auth_change", "Review auth changes"),
   ("secrets_change", "Verify secrets handling"),
   ("dependency_change", "Confirm dependency bumps are intended"),
   ("permission_change", "Validate permission changes")]

def coverageStep : Text := "Address coverage regressions"

def hasBlockingRule (snapshot : Value) : Except Misfit Bool := do
  Value.anyItem (fun r => return (← r.need "severity").same (.str "BLOCK"))
    (← (← snapshot.need "matched_rules").walk)

def blockersOf (signals snapshot : Value) : Except Misfit (List Blocker) := do
  let ci ← Scorecard.ciFailed (← signals.need "ci")
  let canary ← Scorecard.canaryFailed ((← signals.find "canary").getD .null)
  let security ← Scorecard.hasSecurityFindings (← signals.need "security")
  let policy ← hasBlockingRule snapshot
  return (if ci then [ciBlocker] else []) ++ (if canary then [canaryBlocker] else []) ++
    (if security then [securityBlocker] else []) ++ (if policy then [policyBlocker] else [])

def setFlags (flags : Value) : List (Text × Text) → Except Misfit (List (Text × Text))
  | [] => .ok []
  | (flag, step) :: rest => do
      let set := ((← flags.find flag).getD .null).truthy
      let others ← setFlags flags rest
      return if set then (flag, step) :: others else others

def coverageFell (ci : Value) : Except Misfit Bool := do
  match ← ci.findSome "coverage_delta" with
  | none => return false
  | some delta => delta.before (.int 0)

def checkLink (check : Value) : Except Misfit (Option Value) := do
  match ← check.find "url" with
  | some url => return if url.truthy then some url else none
  | none => return none

/-- The first link among the checks. -/
def evidenceOf (ci : Value) : Except Misfit (List Value) := do
  match ← ci.find "checks" with
  | none => return []
  | some checks =>
      if !checks.truthy then return []
      return ((← (← checks.walk).mapM checkLink).filterMap id).take 1

def summaryText (action overall riskLevel policyAction : Value) (blockers flags : List Text) :
    Text :=
  Text.intercalate "; " (
    ["Action=" ++ action.display,
      "Score=" ++ overall.display ++ " (" ++ riskLevel.display ++ ")",
      "Policy=" ++ policyAction.display] ++
    (if blockers.isEmpty then [] else ["Blockers=" ++ Text.intercalate ", " blockers]) ++
    (if flags.isEmpty then [] else ["Risks=" ++ Text.intercalate ", " flags]))

def build (inputs snapshot overall riskLevel action : Value) : Except Misfit Rationale := do
  let signals ← inputs.need "signals"
  let blockers ← blockersOf signals snapshot
  let flags ← setFlags (← (← inputs.need "change_summary").need "change_flags") flagSteps
  let ci ← signals.need "ci"
  let fell ← coverageFell ci
  let policyAction ← snapshot.need "policy_action"
  let evidence ← evidenceOf ci
  let steps := blockers.map Blocker.step ++ flags.map Prod.snd ++
    if fell then [coverageStep] else []
  return {
    summary := summaryText action overall riskLevel policyAction (blockers.map Blocker.text)
      (flags.map Prod.fst)
    evidence
    steps := dedupeBy (· == ·) steps
    blockers := blockers.map Blocker.text
    riskFlags := flags.map Prod.fst }

end Rationale

end ReleaseGate
