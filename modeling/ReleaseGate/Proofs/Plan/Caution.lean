import ReleaseGate.Proofs.Execution.Authority
import ReleaseGate.Proofs.Verdict.Blockers
import ReleaseGate.Proofs.Verdict.Confidence

/-!
Raising the risk of a change never makes the gate bolder. Under one snapshot the riskier inputs are
given a score that is not higher, a risk level that is not lower, no more confidence and an action
that is not bolder; and a deployment that is approved for them is approved for the others too.
-/

namespace ReleaseGate

open Verdict (proposedOf confidenceOf learningModeOf entry Riskier Composition settle approval kill
  calmInputs frozen rollbackPart)

namespace FactoryAction

/-- How much an action holds back. What is asked of nobody is held. -/
def caution : FactoryAction → Nat
  | .approveAutomergeDeploy => 0
  | .holdForHuman | .none => 1
  | .killAndRollback => 2

/-- Nothing is less cautious than an approval. -/
theorem approve_of_caution {f g : FactoryAction}
    (approves : Value.str g.name = approval) (le : f.caution ≤ g.caution) :
    f = .approveAutomergeDeploy := by
  rw [approve_of_name (Value.str.inj approves)] at le
  cases f with
  | approveAutomergeDeploy => rfl
  | killAndRollback | holdForHuman | none => exact absurd le (by decide)

end FactoryAction

namespace Verdict

def settled (asked : FactoryAction) (rollback learning low : Bool) : FactoryAction :=
  if rollback then .killAndRollback
  else
    match asked with
    | .none => .holdForHuman
    | .approveAutomergeDeploy => if learning || low then .holdForHuman else .approveAutomergeDeploy
    | asked => asked

theorem settle_name (asked : FactoryAction) (rollback learning low : Bool) :
    settle (.str asked.name) rollback learning low =
      .str (settled asked rollback learning low).name := by
  revert rollback learning low
  cases asked <;> decide

theorem settled_proposable (asked : FactoryAction) (rollback learning low : Bool) :
    settled asked rollback learning low ∈ FactoryAction.proposable := by
  revert rollback learning low
  cases asked <;> decide

theorem settled_caution (asked : FactoryAction) {rollback rollback' learning learning' low low'
    : Bool} (hr : rollback ≤ rollback') (hl : learning ≤ learning') (hs : low ≤ low') :
    (settled asked rollback learning low).caution ≤
      (settled asked rollback' learning' low').caution := by
  revert rollback rollback' learning learning' low low'
  cases asked <;> decide

theorem factoryAction_of_oneOf {asked : Value} (h : asked.OneOf Contract.snapshotActions) :
    ∃ a : FactoryAction, asked = .str a.name := by
  obtain ⟨s, listed, rfl⟩ := h
  obtain ⟨a, -, rfl⟩ := List.mem_map.1 listed
  exact ⟨a, rfl⟩

/-- Riskier inputs propose no bolder action. -/
theorem proposedAction_caution {inputs inputs' snapshot action action' : Value} {i j : Int}
    (read : InputsRead inputs) (read' : InputsRead inputs') (policyRead : SnapshotRead snapshot)
    (riskier : Riskier inputs inputs') (le : j ≤ i)
    (proposed : proposedAction inputs snapshot (.int i) = .ok action)
    (proposed' : proposedAction inputs' snapshot (.int j) = .ok action') :
    ∃ f ∈ FactoryAction.proposable, ∃ g ∈ FactoryAction.proposable,
      action = .str f.name ∧ action' = .str g.name ∧ f.caution ≤ g.caution := by
  obtain ⟨asked, _, rollback, _, low, asks, signals, needs, learns, scored, rfl⟩ :=
    proposedAction_parts proposed
  obtain ⟨_, _, rollback', _, low', asks', signals', needs', learns', scored', rfl⟩ :=
    proposedAction_parts proposed'
  cases asks.symm.trans asks'
  obtain ⟨a, rfl⟩ := factoryAction_of_oneOf (policyRead.asked.holds asks)
  have rollbacks := needsRollback_alongside (read.signals.holds signals)
    (read'.signals.holds signals')
    (Value.part_of_need signals ▸ Value.part_of_need signals' ▸ riskier.signals)
  rw [Scorecard.before_int] at scored scored'
  cases scored
  cases scored'
  refine ⟨_, settled_proposable .., _, settled_proposable .., settle_name .., settle_name ..,
    settled_caution a (rollbacks.holds needs needs') ?_ fun low => ?_⟩
  · exact Value.part_of_need learns ▸ Value.part_of_need learns' ▸ riskier.learning
  · have := of_decide_eq_true low
    exact decide_eq_true (by omega)

end Verdict

namespace Plan

/-- The gate returns a plan that is approved for a deployment. -/
def Deploys (verdict threshold : Value) (clock : Clock) : Prop :=
  ∃ plan clock', (ofVerdict verdict threshold).run clock = (.ok plan, clock') ∧
    plan.approved = .bool true ∧
    plan.finalAction = .str FactoryAction.approveAutomergeDeploy.name

theorem isThreshold_of_check {threshold : Value} (h : checkThreshold threshold = .ok ()) :
    IsThreshold threshold := by
  have passes {v w : Value} {next : Bool → Except Error Unit}
      (h : Misfit.lift (v.notAfter w) >>= next = .ok ()) :
      ∃ b, v.notAfter? w = some b ∧ next b = .ok () := by
    unfold Value.notAfter at h
    cases compared : v.notAfter? w with
    | none =>
        rw [compared] at h
        cases h
    | some b =>
        rw [compared] at h
        exact ⟨b, rfl, h⟩
  obtain ⟨fromZero, least, h⟩ := passes h
  cases fromZero with
  | false => cases h
  | true =>
      obtain ⟨toOne, most, h⟩ := passes h
      cases toOne with
      | false => cases h
      | true => exact ⟨least, most⟩

/-- A plan deploys exactly if the verdict approves at the threshold, its texts have bytes and the
clock shows a time. -/
theorem deploys_iff {verdict threshold : Value} (clean : Contract.verdictIssues verdict = [])
    {clock : Clock} : Deploys verdict threshold clock ↔
      IsThreshold threshold ∧ verdict.isEncodable = true ∧
      Text.isBlankText (clock.reading clock.asked) = false ∧
      learningModeOf verdict = .bool false ∧ proposedOf verdict = approval ∧
      threshold.notAfter? (confidenceOf verdict) = some true := by
  have readable := Verdict.readable_of_clean clean
  have killed : kill ≠ approval := by decide
  constructor
  · rintro ⟨plan, clock', ran, approved, final⟩
    have share : IsThreshold threshold := by
      cases checked : checkThreshold threshold with
      | error e =>
          rw [ofVerdict, Verdict.accept_of_clean clean, checked] at ran
          cases ran
      | ok _ => exact isThreshold_of_check checked
    obtain ⟨encodable, d, id, sound, -, admitted, rfl⟩ := ofVerdict_eq_ok clean share ran
    have decided : d.approved = true := Value.bool.inj approved
    obtain ⟨off, asks⟩ := sound.approved.1 decided
    have proposed := (sound.carriesOut decided).1.symm.trans final
    obtain ⟨⟨s, text, shown⟩, -⟩ := admitted.history _ (List.mem_singleton_self _)
    refine ⟨share, encodable, Value.str.inj text ▸ shown, off, proposed, ?_⟩
    obtain kills | ⟨-, reaches⟩ := asks
    · exact absurd (kills.symm.trans proposed) killed
    · exact reaches
  · rintro ⟨share, encodable, shown, off, proposed, reaches⟩
    obtain ⟨d, id, sound, -, ran⟩ := ofVerdict_run clean share encodable shown
    have decided := sound.approved.2 ⟨off, Or.inr ⟨proposed, reaches⟩⟩
    exact ⟨_, _, ran, congrArg Value.bool decided, (sound.carriesOut decided).1.trans proposed⟩

/-- A deployment that is approved for a verdict is approved for one that learns no more, proposes
nothing more cautious, has as much confidence and has a digest. -/
theorem deploys_of_caution {doc doc' threshold : Value} {clock other : Clock} {f g : FactoryAction}
    (clean : Contract.verdictIssues doc = []) (clean' : Contract.verdictIssues doc' = [])
    (learning : (learningModeOf doc).truthy = true → (learningModeOf doc').truthy = true)
    (action : proposedOf doc = .str f.name) (action' : proposedOf doc' = .str g.name)
    (le : f.caution ≤ g.caution)
    (trust : (confidenceOf doc').notAfter? (confidenceOf doc) = some true)
    (deploys : Deploys doc' threshold clock) (encodable : doc.isEncodable = true)
    (shown : Text.isBlankText (other.reading other.asked) = false) :
    Deploys doc threshold other := by
  obtain ⟨share, -, -, off', proposed', reaches⟩ := (deploys_iff clean').1 deploys
  have readable := Verdict.readable_of_clean clean
  have readable' := Verdict.readable_of_clean clean'
  have off : learningModeOf doc = .bool false := by
    obtain ⟨on, mode⟩ := readable.learning
    cases on with
    | false => exact mode
    | true =>
        have on := learning (congrArg Value.truthy mode)
        rw [off'] at on
        cases on
  have proposed : proposedOf doc = approval := by
    rw [action, FactoryAction.approve_of_caution (action'.symm.trans proposed') le]
    rfl
  obtain ⟨place, hp⟩ := Value.place?_of_notAfter_float share.2
  have reached := Value.notAfter?_trans hp readable'.confidence.1 readable.confidence.1
    reaches trust
  exact (deploys_iff clean).2 ⟨share, encodable, shown, off, proposed, reached⟩

theorem Deploys.share {verdict threshold : Value} (clean : Contract.verdictIssues verdict = [])
    {clock : Clock} (deploys : Deploys verdict threshold clock) : IsThreshold threshold :=
  ((deploys_iff clean).1 deploys).1

theorem Deploys.shown {verdict threshold : Value} (clean : Contract.verdictIssues verdict = [])
    {clock : Clock} (deploys : Deploys verdict threshold clock) :
    Text.isBlankText (clock.reading clock.asked) = false :=
  ((deploys_iff clean).1 deploys).2.2.1

end Plan

/-- The second verdict is nowhere bolder than the first: not in its score, its risk level, its
confidence or its action. A deployment that is approved for the second one is approved for the first
one, unless that has no digest: then there is no plan for it. -/
structure NotBolder (doc doc' : Value) : Prop where
  overall : ∃ i j, entry doc "scorecard" "overall" = .int i ∧
    entry doc' "scorecard" "overall" = .int j ∧ j ≤ i
  riskLevel : ∃ k l : RiskLevel, entry doc "scorecard" "risk_level" = .str k.name ∧
    entry doc' "scorecard" "risk_level" = .str l.name ∧ k.rank ≤ l.rank
  confidence : (confidenceOf doc').notAfter? (confidenceOf doc) = some true
  action : ∃ f ∈ FactoryAction.proposable, ∃ g ∈ FactoryAction.proposable,
    proposedOf doc = .str f.name ∧ proposedOf doc' = .str g.name ∧ f.caution ≤ g.caution
  deploys : ∀ threshold clock, Plan.Deploys doc' threshold clock →
    (doc.isEncodable = true → Plan.Deploys doc threshold clock ∧ ∀ other : Clock,
      Text.isBlankText (other.reading other.asked) = false → Plan.Deploys doc threshold other) ∧
    (doc.isEncodable = false → ∀ other, (Plan.ofVerdict doc threshold).run other =
      (.error (.misfit .notEncodable), other))

/-- Raising the risk of a change never makes the gate bolder. -/
theorem riskier_not_bolder {run snapshot inputs inputs' doc doc' : Value}
    (built : Verdict.build run inputs snapshot = .ok doc)
    (built' : Verdict.build run inputs' snapshot = .ok doc') (riskier : Riskier inputs inputs') :
    NotBolder doc doc' := by
  have clean := Verdict.clean_of_built built
  have clean' := Verdict.clean_of_built built'
  obtain ⟨admitted, c, rfl⟩ := Composition.of_built built
  obtain ⟨admitted', c', rfl⟩ := Composition.of_built built'
  obtain ⟨-, cleanInputs, cleanSnapshot⟩ := Verdict.inputIssues_clean.1 admitted
  obtain ⟨-, cleanInputs', -⟩ := Verdict.inputIssues_clean.1 admitted'
  have read := Verdict.inputs_read cleanInputs
  have read' := Verdict.inputs_read cleanInputs'
  have policyRead := Verdict.snapshot_read cleanSnapshot
  have worse := (Scorecard.compute_alongside read read' policyRead riskier).holds c.scored c'.scored
  have trust := Scorecard.notAfter_of_ascending
    ((Scorecard.confidence_alongside worse.overall worse.level).holds c.trusted c'.trusted)
  have actions := Verdict.proposedAction_caution read read' policyRead riskier worse.overall.le
    c.proposed c'.proposed
  refine ⟨⟨_, _, rfl, rfl, worse.overall.le⟩, ⟨_, _, rfl, rfl, worse.level⟩, trust, actions,
    fun threshold clock deploys => ⟨fun encodable => ?_, fun half other =>
      Plan.ofVerdict_unencodable clean (deploys.share clean') half other⟩⟩
  obtain ⟨f, -, g, -, action, action', le⟩ := actions
  have later (other : Clock) (shown : Text.isBlankText (other.reading other.asked) = false) :=
    Plan.deploys_of_caution clean clean' riskier.learning action action' le trust deploys encodable
      shown
  exact ⟨later clock (deploys.shown clean'), later⟩

def busyInputs : Value :=
  .object [("learning_mode", .bool false),
    ("change_summary", .object [("files_changed", .int 60),
      ("change_flags", .object (Contract.changeFlags.map fun flag =>
        (flag, .bool (flag = "dependency_change")))),
      ("touched_paths", .list [.str "infra/queue.tf"])]),
    ("signals", .object [("ci", .object [("status", .str "success")]),
      ("security", .object [("critical_count", .int 0), ("high_count", .int 0)])])]

theorem busy_riskier : Riskier calmInputs busyInputs where
  signals := ⟨⟨id, Or.inl ⟨rfl, rfl⟩⟩, ⟨by decide +kernel, by decide +kernel⟩, Or.inl fun _ => rfl⟩
  summary := ⟨by decide +kernel, by decide +kernel, by decide +kernel⟩
  learning := id

def halfInputs : Value :=
  .object [("learning_mode", .bool false),
    ("change_summary", .object [("files_changed", .int 0),
      ("change_flags", .object (Contract.changeFlags.map fun flag => (flag, .bool false)))]),
    ("signals", .object [("ci", .object [("status", .str "success"),
        ("checks", .list [.object [("name", .str .firstHalf)]])]),
      ("security", .object [("critical_count", .int 0), ("high_count", .int 0)])])]

theorem half_riskier : Riskier halfInputs busyInputs where
  signals := ⟨⟨id, Or.inl ⟨rfl, rfl⟩⟩, ⟨by decide +kernel, by decide +kernel⟩, Or.inl fun _ => rfl⟩
  summary := ⟨by decide +kernel, by decide +kernel, by decide +kernel⟩
  learning := id

/-- The busy change is deployed too, with less confidence. -/
theorem busy_built : ∃ doc, Verdict.build (rollbackPart "run") busyInputs frozen.snapshot =
    .ok doc ∧
    Plan.Deploys doc (.float .half) Execution.stoppedClock := by
  have shown : (Verdict.build (rollbackPart "run") busyInputs frozen.snapshot).toOption.map
      (fun doc => (doc.isEncodable, learningModeOf doc, proposedOf doc,
        (Value.float .half).notAfter? (confidenceOf doc))) =
      some (true, .bool false, approval, some true) := by
    decide +kernel
  obtain ⟨doc, found, same⟩ := Option.map_eq_some_iff.1 shown
  have built := eq_ok_of_toOption found
  obtain ⟨encodable, same⟩ := Prod.mk.inj same
  obtain ⟨off, same⟩ := Prod.mk.inj same
  obtain ⟨proposed, reaches⟩ := Prod.mk.inj same
  have share : Plan.IsThreshold (.float .half) := ⟨by decide +kernel, by decide +kernel⟩
  exact ⟨doc, built, (Plan.deploys_iff (Verdict.clean_of_built built)).2
    ⟨share, encodable, Execution.stoppedClock_proper _, off, proposed, reaches⟩⟩

theorem riskier_not_bolder_busy :
    Riskier calmInputs busyInputs ∧
    ∃ doc doc', Verdict.build (rollbackPart "run") calmInputs frozen.snapshot = .ok doc ∧
      Verdict.build (rollbackPart "run") busyInputs frozen.snapshot = .ok doc' ∧
      NotBolder doc doc' ∧ Plan.Deploys doc' (.float .half) Execution.stoppedClock ∧
      doc.isEncodable = true ∧ Plan.Deploys doc (.float .half) Execution.stoppedClock := by
  have texts : (Verdict.build (rollbackPart "run") calmInputs frozen.snapshot).toOption.map
      Value.isEncodable = some true := by decide +kernel
  obtain ⟨doc, found, encodable⟩ := Option.map_eq_some_iff.1 texts
  have built := eq_ok_of_toOption found
  obtain ⟨doc', built', deploys⟩ := busy_built
  have calmer := riskier_not_bolder built built' busy_riskier
  exact ⟨busy_riskier, doc, doc', built, built', calmer, deploys, encodable,
    ((calmer.deploys _ _ deploys).1 encodable).1⟩

/-- The busy change is deployed, and for the calmer one with the check there is no plan at all. -/
theorem half_undeployed :
    Riskier halfInputs busyInputs ∧
    ∃ doc doc', Verdict.build (rollbackPart "run") halfInputs frozen.snapshot = .ok doc ∧
      Verdict.build (rollbackPart "run") busyInputs frozen.snapshot = .ok doc' ∧
      Plan.IsThreshold (.float .half) ∧
      Plan.Deploys doc' (.float .half) Execution.stoppedClock ∧
      (Plan.ofVerdict doc (.float .half)).run Execution.stoppedClock =
        (.error (.misfit .notEncodable), Execution.stoppedClock) ∧
      ¬ Plan.Deploys doc (.float .half) Execution.stoppedClock := by
  have texts : (Verdict.build (rollbackPart "run") halfInputs frozen.snapshot).toOption.map
      Value.isEncodable = some false := by decide +kernel
  obtain ⟨doc, found, half⟩ := Option.map_eq_some_iff.1 texts
  have built := eq_ok_of_toOption found
  obtain ⟨doc', built', deploys⟩ := busy_built
  have share := deploys.share (Verdict.clean_of_built built')
  have ended := Plan.ofVerdict_unencodable (Verdict.clean_of_built built) share half
    Execution.stoppedClock
  refine ⟨half_riskier, doc, doc', built, built', share, deploys, ended, ?_⟩
  rintro ⟨plan, after, ran, -⟩
  cases ended.symm.trans ran

end ReleaseGate
