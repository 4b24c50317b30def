import ReleaseGate.Proofs.Policy.Evaluated
import ReleaseGate.Proofs.Verdict.Composition

/-!
What an approval says about blockers. An action is left an approval only where neither the checks
nor the canary nor the security findings call for a rollback; a rule that blocks calls for none, so
it is the one blocker that an approval can report, and then it is a rule that allows the change.
-/

namespace ReleaseGate

namespace Rationale

open Verdict

variable {inputs snapshot signals : Value}

/-- Where nothing calls for a rollback, a rule of the policy is the only possible blocker. -/
theorem blockersOf_calm (calm : needsRollback signals = .ok false) (snapshot : Value) :
    blockersOf signals snapshot =
      (hasBlockingRule snapshot).map fun blocks => if blocks then [policyBlocker] else [] := by
  obtain ⟨ci, canary, security, foundCi, ciEnded, foundCanary, canaryEnded, foundSecurity,
    securityEnded⟩ := calm_of_needsRollback calm
  simp only [blockersOf, foundCi, ciEnded, foundCanary, canaryEnded, foundSecurity, securityEnded,
    bind, Except.bind]
  cases hasBlockingRule snapshot <;> rfl

theorem anyItem_map {α : Type} {test : Value → Except Misfit Bool} {f : α → Value} {p : α → Bool}
    (h : ∀ a, test (f a) = .ok (p a)) (as : List α) :
    Value.anyItem test (as.map f) = .ok (as.any p) := by
  induction as with
  | nil => rfl
  | cons a as ih =>
      rw [List.map_cons, Value.anyItem, h, ih, List.any_cons]
      cases p a <;> rfl

theorem hasBlockingRule_snapshot (e : Evaluation) :
    hasBlockingRule e.snapshot = .ok (e.matched.any fun m => m.severity = .block) := by
  refine anyItem_map (fun m => ?_) e.matched
  show Except.ok ((Value.str m.severity.name).same (.str "BLOCK")) = _
  cases m.severity <;> rfl

theorem build_parts {overall riskLevel action : Value} {r : Rationale}
    (h : build inputs snapshot overall riskLevel action = .ok r) :
    ∃ signals blockers summary changed flags, ∃ fell : Bool, inputs.need "signals" = .ok signals ∧
      blockersOf signals snapshot = .ok blockers ∧ inputs.need "change_summary" = .ok summary ∧
      summary.need "change_flags" = .ok changed ∧ setFlags changed flagSteps = .ok flags ∧
      r.blockers = blockers.map Blocker.text ∧
      r.steps = dedupeBy (· == ·) (blockers.map Blocker.step ++ flags.map Prod.snd ++
        if fell then [coverageStep] else []) := by
  obtain ⟨signals, found, h⟩ := bind_eq_ok h
  obtain ⟨blockers, listed, h⟩ := bind_eq_ok h
  obtain ⟨summary, foundSummary, h⟩ := bind_eq_ok h
  obtain ⟨changed, foundFlags, h⟩ := bind_eq_ok h
  obtain ⟨flags, set, h⟩ := bind_eq_ok h
  obtain ⟨ci, -, h⟩ := bind_eq_ok h
  obtain ⟨fell, -, h⟩ := bind_eq_ok h
  obtain ⟨policyAction, -, h⟩ := bind_eq_ok h
  obtain ⟨evidence, -, h⟩ := bind_eq_ok h
  cases h
  exact ⟨signals, blockers, summary, changed, flags, fell, found, listed, foundSummary, foundFlags,
    set, rfl, rfl⟩

/-- A rationale lists the blockers of the signals and the snapshot it was built on. -/
theorem blockers_of_build {overall riskLevel action : Value} {r : Rationale}
    (h : build inputs snapshot overall riskLevel action = .ok r) :
    ∃ signals blockers, inputs.need "signals" = .ok signals ∧
      blockersOf signals snapshot = .ok blockers ∧ r.blockers = blockers.map Blocker.text := by
  obtain ⟨signals, blockers, -, -, -, -, found, listed, -, -, -, texts, -⟩ := build_parts h
  exact ⟨signals, blockers, found, listed, texts⟩

end Rationale

theorem PolicyAction.allow_of_toFactory {a : PolicyAction} {learning : Bool}
    (h : a.toFactory learning = .approveAutomergeDeploy) : a = .allow := by
  cases a with
  | allow => rfl
  | killAndRollback | holdForHuman | requireApproval | none => cases h

theorem FactoryAction.approve_of_name {a : FactoryAction}
    (h : a.name = FactoryAction.approveAutomergeDeploy.name) : a = .approveAutomergeDeploy := by
  revert h
  cases a <;> decide

namespace Verdict

/-- An approval reports no blocker but a rule of the policy that blocks and yet allows the change.
-/
theorem approval_blockers {default policy signals : Value} {learningMode : Option Value}
    {e : Evaluation}
    (evaluated : Policy.evaluateDocument default policy signals learningMode = .ok e)
    {run inputs doc : Value} (built : build run inputs e.snapshot = .ok doc)
    (approves : proposedOf doc = .str FactoryAction.approveAutomergeDeploy.name) :
    ∃ r, Rationale.build inputs e.snapshot (entry doc "scorecard" "overall")
        (entry doc "scorecard" "risk_level") (proposedOf doc) = .ok r ∧
      entry doc "rationale" "summary" = .str r.summary ∧
      ((∀ m ∈ e.matched, m.severity ≠ .block) → r.blockers = []) ∧
      ∀ m ∈ e.matched, m.severity = .block →
        m.action = .allow ∧ r.blockers = [↑"Policy BLOCK rule matched"] := by
  obtain ⟨p, evaluated⟩ := Policy.evaluated_of_ok evaluated
  obtain ⟨-, c, rfl⟩ := Composition.of_built built
  have proposed := c.proposed
  rw [c.proposedOf_document run] at approves
  rw [approves] at proposed
  obtain ⟨asked, signals, rollback, _, _, asks, found, calm, -, -, left⟩ :=
    proposedAction_parts proposed
  obtain ⟨rfl, -, -, rfl⟩ := settle_eq_approval.1 left.symm
  obtain ⟨_, blockers, same, listed, texts⟩ := Rationale.blockers_of_build c.explained
  cases found.symm.trans same
  rw [Rationale.blockersOf_calm calm, Rationale.hasBlockingRule_snapshot] at listed
  refine ⟨c.rationale, c.explained, rfl, fun free => ?_, fun m hm block => ?_⟩
  · have none : (e.matched.any fun m => m.severity = .block) = false := by
      simpa using free
    rw [none] at listed
    cases listed
    exact texts
  · have some : (e.matched.any fun m => m.severity = .block) = true :=
      List.any_eq_true.2 ⟨m, hm, by simpa using block⟩
    rw [some] at listed
    cases listed
    have name : Value.str e.factoryAction.name = _ := Except.ok.inj asks
    have factory := FactoryAction.approve_of_name (Value.str.inj name)
    rw [evaluated.decided.factoryAction, (evaluated.decided.of_block hm block).2] at factory
    exact ⟨PolicyAction.allow_of_toFactory factory, texts⟩

def freezeRule : Rule where
  id := .str "freeze"
  condition := .str "change.infra == false"
  action := .allow
  severity := .block
  reason := .str "checked by hand"

def freezePolicy : Policy := ⟨.str "v1", [freezeRule], .bool false⟩

def calmSignals : Value :=
  .object [("ci_status", .str "success"), ("security_critical_count", .int 0),
    ("security_high_count", .int 0), ("infra_change", .bool false), ("db_migration", .bool false),
    ("auth_change", .bool false), ("secrets_change", .bool false),
    ("dependency_change", .bool false), ("canary_error_rate", .int 0),
    ("canary_latency_delta", .int 0)]

def calmInputs : Value :=
  .object [("learning_mode", .bool false),
    ("change_summary", .object [("files_changed", .int 0),
      ("change_flags", .object (Contract.changeFlags.map fun flag => (flag, .bool false)))]),
    ("signals", .object [("ci", .object [("status", .str "success")]),
      ("security", .object [("critical_count", .int 0), ("high_count", .int 0)])])]

def frozen : Evaluation :=
  ⟨[freezeRule.toMatch], .block, .allow, .approveAutomergeDeploy, .str "v1", .bool false⟩

theorem frozen_evaluated :
    Policy.evaluateDocument (.bool true) freezePolicy.toValue calmSignals (some (.bool false)) =
      .ok frozen :=
  eq_ok_of_toOption (by decide +kernel)

theorem frozen_built : ∃ doc, build (rollbackPart "run") calmInputs frozen.snapshot = .ok doc ∧
    proposedOf doc = .str FactoryAction.approveAutomergeDeploy.name ∧
    ∃ r, Rationale.build calmInputs frozen.snapshot (entry doc "scorecard" "overall")
        (entry doc "scorecard" "risk_level") (proposedOf doc) = .ok r ∧
      r.blockers = [Rationale.policyBlocker.text] := by
  have shown : ((build (rollbackPart "run") calmInputs frozen.snapshot).toOption.bind fun doc =>
      (Rationale.build calmInputs frozen.snapshot (entry doc "scorecard" "overall")
        (entry doc "scorecard" "risk_level") (proposedOf doc)).toOption.map fun r =>
          (proposedOf doc, r.blockers)) =
      some (.str FactoryAction.approveAutomergeDeploy.name, [Rationale.policyBlocker.text]) := by
    decide +kernel
  obtain ⟨doc, built, shown⟩ := Option.bind_eq_some_iff.1 shown
  obtain ⟨r, explained, same⟩ := Option.map_eq_some_iff.1 shown
  obtain ⟨approves, blockers⟩ := Prod.mk.inj same
  exact ⟨doc, eq_ok_of_toOption built, approves, r, eq_ok_of_toOption explained, blockers⟩

theorem approval_blockers_freeze :
    Policy.evaluateDocument (.bool true) freezePolicy.toValue calmSignals (some (.bool false)) =
      .ok frozen ∧
    ∃ doc, build (rollbackPart "run") calmInputs frozen.snapshot = .ok doc ∧
      proposedOf doc = .str FactoryAction.approveAutomergeDeploy.name ∧
      ∃ r, Rationale.build calmInputs frozen.snapshot (entry doc "scorecard" "overall")
          (entry doc "scorecard" "risk_level") (proposedOf doc) = .ok r ∧
        r.blockers = [↑"Policy BLOCK rule matched"] := by
  obtain ⟨doc, built, approves, -⟩ := frozen_built
  obtain ⟨r, explained, -, -, blocked⟩ := approval_blockers frozen_evaluated built approves
  have decided := blocked freezeRule.toMatch (List.mem_singleton_self _) rfl
  exact ⟨frozen_evaluated, doc, built, approves, r, explained, decided.2⟩

/-- The policy is evaluated, its verdict approves, and the rationale of that verdict has a blocker.
-/
theorem approval_despite_blocker :
    ∃ e doc r,
      Policy.evaluateDocument (.bool true) freezePolicy.toValue calmSignals
        (some (.bool false)) = .ok e ∧
      build (rollbackPart "run") calmInputs e.snapshot = .ok doc ∧
      proposedOf doc = .str FactoryAction.approveAutomergeDeploy.name ∧
      Rationale.build calmInputs e.snapshot (entry doc "scorecard" "overall")
        (entry doc "scorecard" "risk_level") (proposedOf doc) = .ok r ∧
      r.blockers ≠ [] := by
  obtain ⟨doc, built, approves, r, explained, blockers⟩ := frozen_built
  exact ⟨frozen, doc, r, frozen_evaluated, built, approves, explained,
    by rw [blockers]; exact List.cons_ne_nil _ _⟩

end Verdict

end ReleaseGate
