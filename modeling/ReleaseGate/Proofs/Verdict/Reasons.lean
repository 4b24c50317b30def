import ReleaseGate.Proofs.Verdict.Scores

/-!
Action and rationale of checked inputs. Both come about without a fault; the action is one that a
verdict may propose, and the rationale has a summary and texts for evidence.
-/

namespace ReleaseGate

open Verdict (CiRead SignalsRead FlagsRead InputsRead SnapshotRead)
open Scorecard (ciFailed_yields canaryFailed_yields hasSecurityFindings_yields anyItem_yields)

namespace Verdict

theorem needsRollback_yields {signals : Value} (read : SignalsRead signals) :
    Yields (needsRollback signals) fun _ => True := by
  refine read.ci.bind fun ci ciRead => (ciFailed_yields ciRead).bind fun _ _ => ?_
  refine read.canary.bind fun canary canaryRead => ?_
  refine (canaryFailed_yields canaryRead).bind fun _ _ => ?_
  refine read.security.bind fun security securityRead => ?_
  exact (hasSecurityFindings_yields securityRead).bind fun _ _ => .ok trivial

theorem oneOf_factoryActions {asked : Value} (among : asked.OneOf Contract.snapshotActions)
    (proposed : asked ≠ .str FactoryAction.none.name) : asked.OneOf Contract.factoryActions := by
  obtain ⟨s, listed, rfl⟩ := among
  have parts : s ∈ Contract.factoryActions ++ [FactoryAction.none.name] := listed
  rcases List.mem_append.1 parts with factory | none
  · exact ⟨s, factory, rfl⟩
  · exact absurd (congrArg Value.str (List.mem_singleton.1 none)) proposed

/-- Inputs and snapshot that can be read always lead to an action. -/
theorem proposedAction_yields {inputs snapshot : Value} (read : InputsRead inputs)
    (policyRead : SnapshotRead snapshot) (overall : Int) :
    Yields (proposedAction inputs snapshot (.int overall)) fun action =>
      action.OneOf Contract.factoryActions := by
  have kill : Value.OneOf Contract.factoryActions (.str FactoryAction.killAndRollback.name) :=
    ⟨_, by decide, rfl⟩
  have hold : Value.OneOf Contract.factoryActions (.str FactoryAction.holdForHuman.name) :=
    ⟨_, by decide, rfl⟩
  refine policyRead.asked.bind fun asked among => ?_
  refine read.signals.bind fun signals signalsRead => ?_
  refine (needsRollback_yields signalsRead).bind fun rollback _ => ?_
  refine read.learning.bind fun learning _ => ?_
  refine (Value.before_yields rfl rfl).bind fun low _ => .ok ?_
  have chosen : Value.OneOf Contract.factoryActions
      (if rollback then .str FactoryAction.killAndRollback.name
      else if asked = .str FactoryAction.none.name then .str FactoryAction.holdForHuman.name
      else asked) := by
    split
    · exact kill
    · split
      · exact hold
      · next proposed => exact oneOf_factoryActions among proposed
  exact iteInduction (fun _ => hold) fun _ => chosen

end Verdict

namespace Rationale

theorem hasBlockingRule_yields {snapshot : Value} (read : SnapshotRead snapshot) :
    Yields (hasBlockingRule snapshot) fun _ => True := by
  refine read.rules.bind fun v hv => ?_
  obtain ⟨rs, rfl, severities⟩ := hv
  exact anyItem_yields fun r hr => (severities r hr).bind fun _ _ => .ok trivial

theorem blockersOf_yields {signals snapshot : Value} (read : SignalsRead signals)
    (policyRead : SnapshotRead snapshot) : Yields (blockersOf signals snapshot) fun _ => True := by
  refine read.ci.bind fun ci ciRead => (ciFailed_yields ciRead).bind fun _ _ => ?_
  refine read.canary.bind fun canary canaryRead => ?_
  refine (canaryFailed_yields canaryRead).bind fun _ _ => ?_
  refine read.security.bind fun security securityRead => ?_
  refine (hasSecurityFindings_yields securityRead).bind fun _ _ => ?_
  exact (hasBlockingRule_yields policyRead).bind fun _ _ => .ok trivial

theorem setFlags_yields {flags : Value} (read : FlagsRead flags) (table : List (Text × Text)) :
    Yields (setFlags flags table) fun _ => True := by
  induction table with
  | nil => exact .ok trivial
  | cons entry rest ih => exact (read.find entry.1).bind fun _ _ => ih.bind fun _ _ => .ok trivial

theorem coverageFell_yields {ci : Value} (read : CiRead ci) :
    Yields (coverageFell ci) fun _ => True := by
  refine read.delta.bind fun found fits => ?_
  cases found with
  | none => exact .ok trivial
  | some delta => exact Value.before_yields (fits delta rfl) rfl

theorem checkLink_yields {check : Value}
    (read : Yields (check.find "url") fun found => ∀ url ∈ found, ∃ s, url = .str s) :
    Yields (checkLink check) fun found => ∀ url ∈ found, ∃ s, url = .str s := by
  refine read.bind fun found texts => ?_
  cases found with
  | none => exact .ok texts
  | some url =>
      refine .ok ?_
      split
      · exact texts
      · exact fun _ h => nomatch h

theorem evidenceOf_yields {ci : Value} (read : CiRead ci) :
    Yields (evidenceOf ci) fun evidence => ∀ v ∈ evidence, ∃ s, v = .str s := by
  refine read.checks.bind fun found lists => ?_
  cases found with
  | none => exact .ok (List.forall_mem_nil _)
  | some checks =>
      obtain ⟨cs, rfl, urls⟩ := lists checks rfl
      refine .ite (.ok (List.forall_mem_nil _)) ?_
      have links : Yields (cs.mapM checkLink) _ := .mapM fun c hc => checkLink_yields (urls c hc)
      refine links.bind fun links texts => .ok fun v hv => ?_
      obtain ⟨found, hf, link⟩ := List.mem_filterMap.1 (List.mem_of_mem_take hv)
      exact texts found hf v link

/-- A summary starts with the action, whatever that is. -/
theorem summaryText_full (action overall riskLevel policyAction : Value)
    (blockers flags : List Text) :
    Text.isBlankText (summaryText action overall riskLevel policyAction blockers flags) =
      false := by
  simp only [summaryText, List.cons_append, Text.intercalate, Text.isBlankText,
    Text.toList_append, List.append_assoc, List.all_append]
  exact Bool.and_eq_false_iff.2 (Or.inl rfl)

structure Admitted (r : Rationale) : Prop where
  summary : Text.isBlankText r.summary = false
  evidence : ∀ v ∈ r.evidence, ∃ s, v = .str s

theorem build_yields {inputs snapshot : Value} (read : InputsRead inputs)
    (policyRead : SnapshotRead snapshot) (overall riskLevel action : Value) :
    Yields (build inputs snapshot overall riskLevel action) Admitted := by
  unfold build
  refine read.signals.bind fun signals signalsRead => ?_
  refine (blockersOf_yields signalsRead policyRead).bind fun blockers _ => ?_
  refine read.summary.bind fun summary summaryRead => ?_
  refine summaryRead.flags.bind fun flags flagsRead => ?_
  refine (setFlags_yields flagsRead flagSteps).bind fun flags _ => ?_
  refine signalsRead.ci.bind fun ci ciRead => (coverageFell_yields ciRead).bind fun fell _ => ?_
  refine policyRead.action.bind fun policyAction _ => ?_
  refine (evidenceOf_yields ciRead).bind fun evidence texts => .ok ?_
  have full := summaryText_full action overall riskLevel policyAction (blockers.map Blocker.text)
    (flags.map Prod.fst)
  constructor
  · dsimp only
    exact full
  · exact texts

end Rationale

end ReleaseGate
