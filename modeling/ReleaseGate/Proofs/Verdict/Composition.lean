import ReleaseGate.Proofs.Verdict.Built

/-!
What a verdict that was built is made of: the scores, the action, the confidence and the rationale
that its inputs and its snapshot give.
-/

namespace ReleaseGate.Verdict

def approval : Value := .str FactoryAction.approveAutomergeDeploy.name

def hold : Value := .str FactoryAction.holdForHuman.name

def kill : Value := .str FactoryAction.killAndRollback.name

/-- What the overrides leave of the action that the policy asks for. -/
def settle (asked : Value) (rollback learning low : Bool) : Value :=
  if rollback then kill
  else if asked = .str FactoryAction.none.name then hold
  else if asked = approval && (learning || low) then hold
  else asked

/-- A proposed action is settled from what the policy asked for and three reasons for caution. -/
theorem proposedAction_parts {inputs snapshot overall action : Value}
    (h : proposedAction inputs snapshot overall = .ok action) :
    ∃ asked signals rollback learning low,
      snapshot.need "proposed_factory_action" = .ok asked ∧
      inputs.need "signals" = .ok signals ∧ needsRollback signals = .ok rollback ∧
      inputs.need "learning_mode" = .ok learning ∧
      overall.before (.int Scorecard.mediumRiskFrom) = .ok low ∧
      action = settle asked rollback learning.truthy low := by
  obtain ⟨asked, asks, h⟩ := bind_eq_ok h
  obtain ⟨signals, found, h⟩ := bind_eq_ok h
  obtain ⟨rollback, needs, h⟩ := bind_eq_ok h
  obtain ⟨learning, learns, h⟩ := bind_eq_ok h
  obtain ⟨low, scored, h⟩ := bind_eq_ok h
  refine ⟨asked, signals, rollback, learning, low, asks, found, needs, learns, scored, ?_⟩
  have chosen := (Except.ok.inj h).symm
  have killed : kill ≠ approval := by decide
  have held : hold ≠ approval := by decide
  rw [chosen]
  cases rollback with
  | true => exact if_neg fun both => killed (of_decide_eq_true (Bool.and_eq_true_iff.1 both).1)
  | false =>
      by_cases none : asked = .str FactoryAction.none.name
      · simp only [settle, none, if_true, Bool.false_eq_true, if_false]
        exact if_neg fun both => held (of_decide_eq_true (Bool.and_eq_true_iff.1 both).1)
      · simp only [settle, none, Bool.false_eq_true, if_false]
        rfl

theorem settle_eq_approval {asked : Value} {rollback learning low : Bool} :
    settle asked rollback learning low = approval ↔
      rollback = false ∧ learning = false ∧ low = false ∧ asked = approval := by
  have killed : kill ≠ approval := by decide
  have held : hold ≠ approval := by decide
  have named : approval ≠ .str FactoryAction.none.name := by decide
  unfold settle
  cases rollback with
  | true => simp [killed]
  | false =>
      by_cases same : asked = approval
      · cases learning <;> cases low <;> simp [same, named, held]
      · simp only [same, Bool.false_eq_true, decide_false, Bool.false_and, if_false, and_false,
          iff_false]
        split
        · exact held
        · exact same

/-- Nothing calls for a rollback only where checks, canary and security findings are all in order.
-/
theorem calm_of_needsRollback {signals : Value} (calm : needsRollback signals = .ok false) :
    ∃ ci canary security, signals.need "ci" = .ok ci ∧ Scorecard.ciFailed ci = .ok false ∧
      signals.find "canary" = .ok canary ∧
      Scorecard.canaryFailed (canary.getD .null) = .ok false ∧
      signals.need "security" = .ok security ∧
      Scorecard.hasSecurityFindings security = .ok false := by
  obtain ⟨ci, foundCi, calm⟩ := bind_eq_ok calm
  obtain ⟨failed, ciEnded, calm⟩ := bind_eq_ok calm
  obtain ⟨canary, foundCanary, calm⟩ := bind_eq_ok calm
  obtain ⟨degraded, canaryEnded, calm⟩ := bind_eq_ok calm
  obtain ⟨security, foundSecurity, calm⟩ := bind_eq_ok calm
  obtain ⟨findings, securityEnded, calm⟩ := bind_eq_ok calm
  have none := Except.ok.inj calm
  simp only [Bool.or_eq_false_iff] at none
  obtain ⟨⟨rfl, rfl⟩, rfl⟩ := none
  exact ⟨ci, canary, security, foundCi, ciEnded, foundCanary, canaryEnded, foundSecurity,
    securityEnded⟩

/-- The parts of a verdict with the steps that they come from. -/
structure Composition (inputs snapshot : Value) where
  scores : Scorecard
  action : Value
  confidence : Double
  rationale : Rationale
  scored : Scorecard.compute inputs snapshot = .ok scores
  proposed : proposedAction inputs snapshot (.int scores.overall) = .ok action
  trusted : Scorecard.confidence (.int scores.overall) (.str scores.riskLevel.name) = .ok confidence
  explained : Rationale.build inputs snapshot (.int scores.overall) (.str scores.riskLevel.name)
    action = .ok rationale

theorem clean_of_built {run inputs snapshot doc : Value}
    (built : build run inputs snapshot = .ok doc) : Contract.verdictIssues doc = [] := by
  unfold build at built
  split at built
  · obtain ⟨composed, -, checked⟩ := bind_eq_ok built
    obtain ⟨_, admitted, same⟩ := bind_eq_ok checked
    cases same
    unfold check refuse at admitted
    split at admitted
    · assumption
    · cases admitted
  · cases built

namespace Composition

variable {run inputs snapshot doc : Value}

def document (c : Composition inputs snapshot) (run : Value) : Value :=
  Verdict.document run inputs snapshot c.scores c.action c.confidence c.rationale

/-- Every verdict is composed from accepted arguments. -/
theorem of_built (built : build run inputs snapshot = .ok doc) :
    inputIssues run inputs snapshot = [] ∧
      ∃ c : Composition inputs snapshot, doc = c.document run := by
  unfold build at built
  split at built
  · rename_i clean
    obtain ⟨composed, lifted, checked⟩ := bind_eq_ok built
    obtain ⟨_, -, same⟩ := bind_eq_ok checked
    cases same
    cases steps : compose run inputs snapshot with
    | error m =>
        rw [steps] at lifted
        cases lifted
    | ok made =>
        rw [steps] at lifted
        cases lifted
        obtain ⟨scores, scored, rest⟩ := bind_eq_ok steps
        obtain ⟨action, proposed, rest⟩ := bind_eq_ok rest
        obtain ⟨confidence, trusted, rest⟩ := bind_eq_ok rest
        obtain ⟨rationale, explained, same⟩ := bind_eq_ok rest
        cases same
        exact ⟨clean,
          ⟨scores, action, confidence, rationale, scored, proposed, trusted, explained⟩, rfl⟩
  · cases built

theorem proposedOf_document (c : Composition inputs snapshot) (run : Value) :
    proposedOf (c.document run) = c.action := rfl

end Composition

end ReleaseGate.Verdict
