import ReleaseGate.Proofs.Verdict.Blockers
import ReleaseGate.Proofs.Verdict.Dimensions

/-!
Scores, rationale and action of a verdict go by the same findings. A finding takes its score to
zero, is listed as a blocker with the step that it calls for, and, unless it is a rule of the
policy, makes the action a rollback; an approval is left only where no such finding is made.
-/

namespace ReleaseGate

section

variable {α : Type} [BEq α] [LawfulBEq α]

theorem mem_dedupe_go {a : α} {xs seen : List α} :
    a ∈ dedupeBy.go (· == ·) seen xs ↔ a ∈ xs ∧ a ∉ seen := by
  induction xs generalizing seen with
  | nil => simp [dedupeBy.go]
  | cons x xs ih =>
      rw [dedupeBy.go, List.any_beq', List.mem_cons]
      by_cases known : x ∈ seen
      · rw [if_pos (List.contains_iff_mem.2 known), ih]
        constructor
        · exact fun h => ⟨Or.inr h.1, h.2⟩
        · exact fun h => ⟨h.1.resolve_left fun same => h.2 (same ▸ known), h.2⟩
      · rw [if_neg (mt List.contains_iff_mem.1 known), List.mem_cons, ih, List.mem_cons, not_or]
        by_cases same : a = x
        · simp [same, known]
        · simp [same]

theorem dedupe_go_nodup (xs seen : List α) : (dedupeBy.go (· == ·) seen xs).Nodup := by
  induction xs generalizing seen with
  | nil => exact List.nodup_nil
  | cons x xs ih =>
      rw [dedupeBy.go]
      split
      · exact ih seen
      · refine List.nodup_cons.2 ⟨fun again => ?_, ih (x :: seen)⟩
        exact (mem_dedupe_go.1 again).2 List.mem_cons_self

theorem mem_dedupe {a : α} {xs : List α} : a ∈ dedupeBy (· == ·) xs ↔ a ∈ xs := by
  rw [dedupeBy, mem_dedupe_go]
  simp

end

namespace Findings

open Rationale

def blockers (f : Findings) : List Blocker :=
  (if f.ci then [ciBlocker] else []) ++ (if f.canary then [canaryBlocker] else []) ++
    (if f.security then [securityBlocker] else []) ++ (if f.policy then [policyBlocker] else [])

def grave (f : Findings) : Bool := f.ci || f.canary || f.security

theorem grave_iff (f : Findings) :
    f.grave = true ↔ f.ci = true ∨ f.canary = true ∨ f.security = true := by
  rw [grave, Bool.or_eq_true, Bool.or_eq_true, or_assoc]

variable {f : Findings} {signals snapshot : Value}

theorem needsRollback_eq (h : f.Of signals snapshot) :
    Verdict.needsRollback signals = .ok f.grave := by
  obtain ⟨ci, foundCi, ciEnded⟩ := bind_eq_ok h.ci
  obtain ⟨canary, foundCanary, canaryEnded⟩ := bind_eq_ok h.canary
  obtain ⟨security, foundSecurity, securityEnded⟩ := bind_eq_ok h.security
  simp only [Verdict.needsRollback, foundCi, ciEnded, foundCanary, canaryEnded, foundSecurity,
    securityEnded, bind, Except.bind]
  rfl

/-- The blockers listed are those the findings name. -/
theorem blockersOf_eq (h : f.Of signals snapshot) :
    blockersOf signals snapshot = .ok f.blockers := by
  obtain ⟨ci, foundCi, ciEnded⟩ := bind_eq_ok h.ci
  obtain ⟨canary, foundCanary, canaryEnded⟩ := bind_eq_ok h.canary
  obtain ⟨security, foundSecurity, securityEnded⟩ := bind_eq_ok h.security
  simp only [blockersOf, foundCi, ciEnded, foundCanary, canaryEnded, foundSecurity, securityEnded,
    h.policy, bind, Except.bind]
  rfl

def allBlockers : List Blocker := [ciBlocker, canaryBlocker, securityBlocker, policyBlocker]

theorem blockers_sub (f : Findings) : ∀ b ∈ f.blockers, b ∈ allBlockers := by
  obtain ⟨ci, canary, security, policy⟩ := f
  revert ci canary security policy
  decide +kernel

theorem blockers_listed (f : Findings) :
    (↑"CI failed" ∈ f.blockers.map Blocker.text ↔ f.ci = true) ∧
    (↑"Canary failed" ∈ f.blockers.map Blocker.text ↔ f.canary = true) ∧
    (↑"Security findings present" ∈ f.blockers.map Blocker.text ↔ f.security = true) ∧
    (↑"Policy BLOCK rule matched" ∈ f.blockers.map Blocker.text ↔ f.policy = true) := by
  obtain ⟨ci, canary, security, policy⟩ := f
  revert ci canary security policy
  decide +kernel

end Findings

namespace Rationale

variable {inputs snapshot overall riskLevel action : Value} {r : Rationale}

theorem set_listed {flags : Value} {table set : List (Text × Text)}
    (h : setFlags flags table = .ok set) :
    ∀ entry ∈ table, (flags.part entry.1).truthy = true → entry ∈ set := by
  induction table generalizing set with
  | nil => exact fun _ none => nomatch none
  | cons entry rest ih =>
      obtain ⟨found, looked, h⟩ := bind_eq_ok h
      obtain ⟨others, listed, h⟩ := bind_eq_ok h
      have member := (Value.find_eq (P := fun _ => True) ⟨found, looked, trivial⟩).1
      cases looked.symm.trans member
      have set_ := (Except.ok.inj h).symm
      intro wanted place on
      obtain rfl | later := List.mem_cons.1 place
      · have kept : set = wanted :: others := set_.trans (if_pos on)
        rw [kept]
        exact List.mem_cons_self
      · have earlier := ih listed wanted later on
        rw [set_]
        split
        · exact List.mem_cons_of_mem _ earlier
        · exact earlier

/-- Every change flag calls for a step. -/
theorem flagSteps_known : ∀ flag ∈ Contract.changeFlags, flag ∈ flagSteps.map Prod.fst := by
  decide +kernel

/-- The rationale lists the blockers of these findings, and each step that is called for once. -/
structure Tells (inputs : Value) (f : Findings) (r : Rationale) : Prop where
  texts : r.blockers = f.blockers.map Blocker.text
  distinct : r.steps.Nodup
  blockerSteps : ∀ b ∈ f.blockers, b.step ∈ r.steps
  flagSteps : ∀ flag ∈ Contract.changeFlags,
    ((inputs.part "change_summary").part "change_flags").part flag = .bool true →
      ∃ step ∈ r.steps, (flag, step) ∈ Rationale.flagSteps

/-- A rationale tells every finding, and a step for each. -/
theorem build_tells {signals : Value} {f : Findings} (found : inputs.need "signals" = .ok signals)
    (findings : f.Of signals snapshot)
    (h : build inputs snapshot overall riskLevel action = .ok r) : Tells inputs f r := by
  obtain ⟨_, _, summary, changed, flags, fell, found', listed, foundSummary, foundFlags, set, texts,
    steps⟩ := build_parts h
  cases found.symm.trans found'
  cases listed.symm.trans (Findings.blockersOf_eq findings)
  have kept : ∀ step ∈ f.blockers.map Blocker.step ++ flags.map Prod.snd, step ∈ r.steps :=
    fun step among => by
      rw [steps, mem_dedupe]
      exact List.mem_append_left _ among
  refine ⟨texts, ?_, fun b hb => ?_, fun flag known on => ?_⟩
  · rw [steps]
    exact dedupe_go_nodup _ _
  · exact kept _ (List.mem_append_left _ (List.mem_map_of_mem hb))
  · obtain ⟨⟨_, step⟩, entry, rfl⟩ := List.mem_map.1 (flagSteps_known flag known)
    rw [Value.part_of_need foundSummary, Value.part_of_need foundFlags] at on
    have listed := set_listed set _ entry (by rw [on]; rfl)
    exact ⟨step, kept _ (List.mem_append_right _ (List.mem_map_of_mem listed)), entry⟩

end Rationale

namespace Verdict

/-- A kill is settled on exactly if a rollback is called for or the policy asked for it. -/
theorem settle_eq_kill {asked : Value} {rollback learning low : Bool} :
    settle asked rollback learning low = kill ↔ rollback = true ∨ asked = kill := by
  have held : hold ≠ kill := by decide
  unfold settle
  cases rollback with
  | true => simp
  | false =>
      simp only [Bool.false_eq_true, if_false, false_or]
      split
      · rename_i none
        rw [none]
        exact iff_of_false held (by decide)
      · split
        · rename_i both
          have approves : asked = approval :=
            of_decide_eq_true (Bool.and_eq_true_iff.1 both).1
          rw [approves]
          exact iff_of_false held (by decide)
        · exact Iff.rfl

/-- What the contract makes of a flag is a boolean. -/
theorem truthy_eq_false {v : Value} (flag : ∃ b, v = .bool b) :
    v.truthy = false ↔ v = .bool false := by
  obtain ⟨b, rfl⟩ := flag
  cases b <;> simp [Value.truthy]

/-- The action follows the findings and the policy. -/
theorem proposedAction_follows {inputs snapshot signals action : Value} {f : Findings}
    {overall : Int} (found : inputs.need "signals" = .ok signals) (findings : f.Of signals snapshot)
    (flag : ∃ b, inputs.part "learning_mode" = .bool b)
    (proposed : proposedAction inputs snapshot (.int overall) = .ok action) :
    (action = kill ↔ snapshot.member? "proposed_factory_action" = some kill ∨ f.grave = true) ∧
    (action = approval ↔ snapshot.member? "proposed_factory_action" = some approval ∧
      f.grave = false ∧ inputs.member? "learning_mode" = some (.bool false) ∧ 40 ≤ overall) := by
  obtain ⟨asked, _, _, learning, low, asks, found', needs, learns, scored, settled⟩ :=
    proposedAction_parts proposed
  cases found.symm.trans found'
  cases needs.symm.trans (Findings.needsRollback_eq findings)
  rw [Scorecard.before_int] at scored
  cases scored
  rw [Value.part_of_need learns] at flag
  have high : decide (overall < Scorecard.mediumRiskFrom) = false ↔ 40 ≤ overall :=
    decide_eq_false_iff_not.trans Int.not_lt
  rw [settled, Value.member?_of_need asks, Value.member?_of_need learns, Option.some_inj,
    Option.some_inj, Option.some_inj]
  refine ⟨settle_eq_kill.trans or_comm, settle_eq_approval.trans ?_⟩
  rw [high, truthy_eq_false flag]
  constructor
  · exact fun ⟨calm, off, enough, asksIt⟩ => ⟨asksIt, calm, off, enough⟩
  · exact fun ⟨asksIt, calm, off, enough⟩ => ⟨calm, off, enough, asksIt⟩

/-- The scores, the rationale and the action of a verdict tell the same findings. -/
structure Accord (inputs snapshot action : Value) (c : Scorecard) (r : Rationale) : Prop where
  tests : c.tests = 0 ↔ ↑"CI failed" ∈ r.blockers
  ops : c.ops = 0 ↔ ↑"Canary failed" ∈ r.blockers
  security : c.security = 0 ↔ ↑"Security findings present" ∈ r.blockers
  policy : c.policy = 0 ↔ ↑"Policy BLOCK rule matched" ∈ r.blockers
  rollback : action = kill ↔ snapshot.member? "proposed_factory_action" = some kill ∨
    ↑"CI failed" ∈ r.blockers ∨ ↑"Canary failed" ∈ r.blockers ∨
    ↑"Security findings present" ∈ r.blockers
  approval : action = approval ↔ snapshot.member? "proposed_factory_action" = some approval ∧
    ↑"CI failed" ∉ r.blockers ∧ ↑"Canary failed" ∉ r.blockers ∧
    ↑"Security findings present" ∉ r.blockers ∧
    inputs.member? "learning_mode" = some (.bool false) ∧ 40 ≤ c.overall
  distinct : r.steps.Nodup
  blockerSteps : ∀ text ∈ r.blockers, ∃ b ∈ Findings.allBlockers, b.text = text ∧ b.step ∈ r.steps
  flagSteps : ∀ flag ∈ Contract.changeFlags,
    ((inputs.part "change_summary").part "change_flags").part flag = .bool true →
      ∃ step ∈ r.steps, (flag, step) ∈ Rationale.flagSteps

theorem findings_told_alike {run inputs snapshot doc : Value}
    (built : build run inputs snapshot = .ok doc) :
    ∃ c r, Scorecard.compute inputs snapshot = .ok c ∧ doc.member? "scorecard" = some c.toValue ∧
      Rationale.build inputs snapshot (.int c.overall) (.str c.riskLevel.name) (proposedOf doc) =
        .ok r ∧
      entry doc "verdict" "recommended_next_steps" = .ofTexts r.steps ∧
      Accord inputs snapshot (proposedOf doc) c r := by
  have flag := (readable_of_clean (clean_of_built built)).learning
  obtain ⟨clean, c, rfl⟩ := Composition.of_built built
  obtain ⟨-, cleanInputs, cleanSnapshot⟩ := inputIssues_clean.1 clean
  obtain ⟨signals, f, found, findings, shown⟩ :=
    Scorecard.compute_shows (inputs_read cleanInputs) (snapshot_read cleanSnapshot)
  have shows := shown.holds c.scored
  have tells := Rationale.build_tells found findings c.explained
  obtain ⟨killed, approved⟩ := proposedAction_follows found findings flag c.proposed
  obtain ⟨ci, canary, security, policy⟩ := f.blockers_listed
  rw [← tells.texts] at ci canary security policy
  have grave : f.grave = true ↔ ↑"CI failed" ∈ c.rationale.blockers ∨
      ↑"Canary failed" ∈ c.rationale.blockers ∨
      ↑"Security findings present" ∈ c.rationale.blockers := by
    rw [f.grave_iff, ci, canary, security]
  refine ⟨c.scores, c.rationale, c.scored, rfl, c.explained, rfl,
    shows.tests.zero.trans ci.symm, shows.ops.zero.trans canary.symm,
    shows.security.zero.trans security.symm, shows.policy.zero.trans policy.symm,
    killed.trans (or_congr_right grave), ?_, tells.distinct, fun text among => ?_, tells.flagSteps⟩
  · rw [c.proposedOf_document run, approved, ← Bool.not_eq_true, grave, not_or, not_or, and_assoc,
      and_assoc]
  · rw [tells.texts] at among
    obtain ⟨b, hb, same⟩ := List.mem_map.1 among
    exact ⟨b, f.blockers_sub b hb, same, tells.blockerSteps b hb⟩

def breachedInputs : Value :=
  .object [("learning_mode", .bool false),
    ("change_summary", .object [("files_changed", .int 2),
      ("change_flags", .object (Contract.changeFlags.map fun flag =>
        (flag, .bool (flag = "infra_change"))))]),
    ("signals", .object [("ci", .object [("status", .str "failure")]),
      ("security", .object [("critical_count", .int 0), ("high_count", .int 0)]),
      ("canary", .object [("passed", .bool true), ("latency_delta", .int 101)])])]

/-- The rule asks for an approval; checks and canary make it a rollback. -/
theorem breached_told_alike :
    ∃ doc, build (rollbackPart "run") breachedInputs frozen.snapshot = .ok doc ∧
      proposedOf doc = kill ∧ ∃ c r, Scorecard.compute breachedInputs frozen.snapshot = .ok c ∧
        Accord breachedInputs frozen.snapshot kill c r ∧ c.tests = 0 ∧ c.ops = 0 ∧ c.policy = 0 ∧
        r.steps = [↑"Fix CI failures and rerun checks", ↑"Investigate canary degradation",
          ↑"Address policy BLOCK conditions", ↑"Review infra diff (CDK)"] := by
  have shown : (build (rollbackPart "run") breachedInputs frozen.snapshot).toOption.map
      proposedOf = some kill := by decide +kernel
  obtain ⟨doc, built, killed⟩ := Option.map_eq_some_iff.1 shown
  have built := eq_ok_of_toOption built
  obtain ⟨c, r, scored, -, explained, -, accord⟩ := findings_told_alike built
  rw [killed] at explained accord
  have scores : Scorecard.compute breachedInputs frozen.snapshot =
    .ok ⟨0, 90, 75, 0, 0, 34, .high⟩ :=
    eq_ok_of_toOption (by decide +kernel)
  cases scores.symm.trans scored
  have steps : (Rationale.build breachedInputs frozen.snapshot (.int 34) (.str "HIGH")
      kill).toOption.map Rationale.steps =
      some [↑"Fix CI failures and rerun checks", ↑"Investigate canary degradation",
        ↑"Address policy BLOCK conditions", ↑"Review infra diff (CDK)"] := by decide +kernel
  obtain ⟨_, same, listed⟩ := Option.map_eq_some_iff.1 steps
  cases explained.symm.trans (eq_ok_of_toOption same)
  exact ⟨doc, built, killed, _, r, scored, accord, rfl, rfl, rfl, listed⟩

end Verdict

end ReleaseGate
