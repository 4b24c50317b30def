import ReleaseGate.Proofs.Verdict.Scores
import ReleaseGate.Verdict.Build

/-!
Inputs that carry at least the risk of others, part by part, and what that means for the findings: a
failure of the checks, of the canary or of the security scan that is found in the less risky inputs
is found in the riskier ones too.
-/

namespace ReleaseGate

namespace Value

variable {v w : Value} {key : Text} {P Q : Value → Prop}

def part (v : Value) (key : Text) : Value := (v.member? key).getD .null

theorem member?_of_need (h : v.need key = .ok w) : v.member? key = some w := by
  unfold need at h
  split at h
  · split at h
    · rename_i found
      cases h
      exact found
    · cases h
  · cases h

theorem truthy_of_member (h : v.member? key = some w) : v.truthy = true := by
  cases v with
  | object ms =>
      cases ms with
      | nil => cases h
      | cons m ms => rfl
  | null | bool _ | int _ | float _ | str _ | list _ => cases h

theorem part_of_need (h : v.need key = .ok w) : v.part key = w := by
  rw [part, member?_of_need h]
  rfl

/-- Two documents that both have a member are read alongside each other. -/
theorem need_alongside (hv : Yields (v.need key) P) (hw : Yields (w.need key) Q) :
    Alongside (v.need key) (w.need key) fun x y =>
      (x = v.part key ∧ P x) ∧ y = w.part key ∧ Q y := by
  obtain ⟨x, found, hx⟩ := hv
  obtain ⟨y, found', hy⟩ := hw
  exact ⟨x, y, found, found', ⟨(part_of_need found).symm, hx⟩, (part_of_need found').symm, hy⟩

theorem find_eq {P : Option Value → Prop} (h : Yields (v.find key) P) :
    v.find key = .ok (v.member? key) ∧ P (v.member? key) := by
  cases v with
  | object ms =>
      obtain ⟨found, same, hf⟩ := h
      cases same
      exact ⟨rfl, hf⟩
  | null | bool _ | int _ | float _ | str _ | list _ =>
      obtain ⟨_, same, -⟩ := h
      cases same

theorem find_alongside {P Q : Option Value → Prop} (hv : Yields (v.find key) P)
    (hw : Yields (w.find key) Q) :
    Alongside (v.find key) (w.find key) fun x y =>
      (x = v.member? key ∧ P x) ∧ y = w.member? key ∧ Q y := by
  obtain ⟨found, hx⟩ := find_eq hv
  obtain ⟨found', hy⟩ := find_eq hw
  exact ⟨_, _, found, found', ⟨rfl, hx⟩, rfl, hy⟩

theorem findSome_of_absent {P : Option Value → Prop} (h : Yields (v.findSome key) P)
    (absent : v.member? key = none) : v.findSome key = .ok none := by
  cases v with
  | object ms =>
      have none : ms.lookup key = none := absent
      simp only [findSome, find, none]
      rfl
  | null | bool _ | int _ | float _ | str _ | list _ =>
      obtain ⟨_, same, -⟩ := h
      cases same

theorem findSome_of_part {P : Option Value → Prop} (h : Yields (v.findSome key) P)
    (there : v.part key ≠ .null) :
    v.findSome key = .ok (some (v.part key)) ∧ P (some (v.part key)) := by
  have found : v.findSome key = .ok (some (v.part key)) := by
    unfold part at there ⊢
    cases member : v.member? key with
    | none =>
        rw [member] at there
        exact absurd rfl there
    | some w =>
        rw [member] at there
        cases v with
        | object ms =>
            have found : ms.lookup key = some w := member
            simp only [findSome, find, found]
            cases w with
            | null => exact absurd rfl there
            | bool _ | int _ | float _ | str _ | list _ | object _ => rfl
        | null | bool _ | int _ | float _ | str _ | list _ => cases member
  exact ⟨found, h.holds found⟩

end Value

namespace Verdict

/-- The second checks fail if the first do, and their coverage, if they tell it, is not greater. -/
structure CiRiskier (ci ci' : Value) : Prop where
  failure : ci.part "status" = .str "failure" → ci'.part "status" = .str "failure"
  coverage : ci.member? "coverage_delta" = none ∧ ci'.member? "coverage_delta" = none ∨
    (ci'.part "coverage_delta").notAfter? (ci.part "coverage_delta") = some true

structure SecurityRiskier (security security' : Value) : Prop where
  critical : (security.part "critical_count").notAfter? (security'.part "critical_count") =
    some true
  high : (security.part "high_count").notAfter? (security'.part "high_count") = some true

/-- The canaries have the same members, or the second one failed. -/
def CanaryRiskier (canary canary' : Value) : Prop :=
  (∀ key, canary.member? key = canary'.member? key) ∨ Scorecard.canaryFailed canary' = .ok true

structure SignalsRiskier (signals signals' : Value) : Prop where
  ci : CiRiskier (signals.part "ci") (signals'.part "ci")
  security : SecurityRiskier (signals.part "security") (signals'.part "security")
  canary : CanaryRiskier (signals.part "canary") (signals'.part "canary")

/-- The second change sets every flag, has as many files and touches every path of the first. -/
structure SummaryRiskier (summary summary' : Value) : Prop where
  flags : ∀ flag ∈ Contract.changeFlags, ((summary.part "change_flags").part flag).truthy = true →
    ((summary'.part "change_flags").part flag).truthy = true
  files : (summary.part "files_changed").notAfter? (summary'.part "files_changed") = some true
  paths : ∀ p ∈ (summary.part "touched_paths").items, p ∈ (summary'.part "touched_paths").items

/-- The second inputs are at least as risky as the first. -/
structure Riskier (inputs inputs' : Value) : Prop where
  signals : SignalsRiskier (inputs.part "signals") (inputs'.part "signals")
  summary : SummaryRiskier (inputs.part "change_summary") (inputs'.part "change_summary")
  learning : (inputs.part "learning_mode").truthy = true →
    (inputs'.part "learning_mode").truthy = true

end Verdict

open Verdict (CiRead SecurityRead CanaryRead SignalsRead CiRiskier SecurityRiskier CanaryRiskier
  SignalsRiskier)

namespace Scorecard

/-- Riskier checks fail at least as often. -/
theorem ciFailed_alongside {ci ci' : Value} (read : CiRead ci) (read' : CiRead ci')
    (riskier : CiRiskier ci ci') : Alongside (ciFailed ci) (ciFailed ci') fun x y => x ≤ y := by
  refine (Value.need_alongside read.status read'.status).bind fun _ _ both => ?_
  obtain ⟨⟨rfl, -⟩, rfl, -⟩ := both
  exact .ok fun failed => Value.same_str_iff.2 (riskier.failure (Value.same_str_iff.1 failed))

/-- A second test that is made where the first one fails. -/
theorem orElse_alongside {x x' y y' : Except Misfit Bool} (first : Alongside x x' fun a b => a ≤ b)
    (next : Alongside y y' fun a b => a ≤ b) :
    Alongside (x >>= fun a => if a then .ok true else y)
      (x' >>= fun a => if a then .ok true else y')
      fun a b => a ≤ b := by
  refine first.bind fun a a' le => ?_
  cases a' with
  | true =>
      obtain ⟨b, -, ended, -, -⟩ := next
      cases a with
      | true => exact .ok fun _ => rfl
      | false => exact ⟨b, true, ended, rfl, fun _ => rfl⟩
  | false =>
      obtain rfl : a = false := Bool.eq_false_of_le_false le
      exact next

theorem hasSecurityFindings_alongside {security security' : Value} (read : SecurityRead security)
    (read' : SecurityRead security') (riskier : SecurityRiskier security security') :
    Alongside (hasSecurityFindings security) (hasSecurityFindings security') fun x y => x ≤ y := by
  have rises {key : Text} (count : Yields (security.need key) fun v => v.fits .integer = true)
      (count' : Yields (security'.need key) fun v => v.fits .integer = true)
      (le : (security.part key).notAfter? (security'.part key) = some true) :
      Alongside (security.need key >>= (Value.int 0).before)
        (security'.need key >>= (Value.int 0).before) fun x y => x ≤ y := by
    refine (Value.need_alongside count count').bind fun _ _ both => ?_
    obtain ⟨⟨rfl, integer⟩, rfl, integer'⟩ := both
    exact Value.before_alongside rfl (Value.fits_number_of_integer integer)
      (Value.fits_number_of_integer integer') le
  have either := orElse_alongside (rises read.critical read'.critical riskier.critical)
    (rises read.high read'.high riskier.high)
  rw [bind_assoc, bind_assoc] at either
  exact either

theorem truthy_of_canaryRead {canary : Value} (read : CanaryRead canary) :
    canary.truthy = true := by
  obtain ⟨passed, found, -⟩ := read.passed
  exact Value.truthy_of_member (Value.member?_of_need found)

theorem canaryFailed_of_members {canary canary' : Value} (read : CanaryRead canary)
    (read' : CanaryRead canary') (same : ∀ key, canary.member? key = canary'.member? key) :
    canaryFailed canary = canaryFailed canary' := by
  have there := truthy_of_canaryRead read
  have there' := truthy_of_canaryRead read'
  obtain ⟨_, found, -⟩ := read.passed
  obtain ⟨_, found', -⟩ := read'.passed
  cases canary with
  | object ms =>
      cases canary' with
      | object ms' =>
          have lookups (key : Text) : ms.lookup key = ms'.lookup key := same key
          simp only [canaryFailed, there, there', Value.need, Value.findSome, Value.find, lookups]
      | null | bool _ | int _ | float _ | str _ | list _ => cases found'
  | null | bool _ | int _ | float _ | str _ | list _ => cases found

section

variable {signals signals' : Value} (read : SignalsRead signals) (read' : SignalsRead signals')
include read

theorem canary_absent_or_read :
    signals.part "canary" = .null ∨ CanaryRead (signals.part "canary") := by
  obtain ⟨-, fits⟩ := Value.find_eq read.canary
  unfold Value.part
  cases found : signals.member? "canary" with
  | none => exact Or.inl rfl
  | some canary => exact Or.inr (fits canary found)

theorem canaryFailed_part : Yields (canaryFailed (signals.part "canary")) fun _ => True :=
  canaryFailed_yields (Value.find_eq read.canary).2

include read'

/-- A canary with the same members is there as well, and fails as well. -/
theorem canary_of_members
    (same : ∀ key, (signals.part "canary").member? key = (signals'.part "canary").member? key) :
    (signals.part "canary").truthy = (signals'.part "canary").truthy ∧
      canaryFailed (signals.part "canary") = canaryFailed (signals'.part "canary") := by
  have passed {canary : Value} (read : CanaryRead canary) :
      ∃ v, canary.member? "passed" = some v := by
    obtain ⟨v, found, -⟩ := read.passed
    exact ⟨v, Value.member?_of_need found⟩
  obtain none | some := canary_absent_or_read read
  · obtain none' | some' := canary_absent_or_read read'
    · rw [none, none']
      exact ⟨rfl, rfl⟩
    · obtain ⟨v, found⟩ := passed some'
      rw [← same, none] at found
      cases found
  · obtain none' | some' := canary_absent_or_read read'
    · obtain ⟨v, found⟩ := passed some
      rw [same, none'] at found
      cases found
    · exact ⟨(truthy_of_canaryRead some).trans (truthy_of_canaryRead some').symm,
        canaryFailed_of_members some some' same⟩

theorem canaryFailed_alongside
    (riskier : CanaryRiskier (signals.part "canary") (signals'.part "canary")) :
    Alongside (canaryFailed (signals.part "canary")) (canaryFailed (signals'.part "canary"))
      fun x y => x ≤ y := by
  obtain same | failed := riskier
  · rw [(canary_of_members read read' same).2]
    refine (Alongside.refl (canaryFailed_part read')).mono ?_
    rintro x _ ⟨rfl, -⟩
    exact id
  · obtain ⟨x, ended, -⟩ := canaryFailed_part read
    exact ⟨x, true, ended, failed, fun _ => rfl⟩

end

end Scorecard

/-- What calls for a rollback of a change calls for one of a riskier change. -/
theorem Verdict.needsRollback_alongside {signals signals' : Value} (read : SignalsRead signals)
    (read' : SignalsRead signals') (riskier : SignalsRiskier signals signals') :
    Alongside (needsRollback signals) (needsRollback signals') fun x y => x ≤ y := by
  refine (Value.need_alongside read.ci read'.ci).bind fun _ _ both => ?_
  obtain ⟨⟨rfl, ciRead⟩, rfl, ciRead'⟩ := both
  refine (Scorecard.ciFailed_alongside ciRead ciRead' riskier.ci).bind fun ci ci' failed => ?_
  refine (Value.find_alongside read.canary read'.canary).bind fun _ _ both => ?_
  obtain ⟨⟨rfl, -⟩, rfl, -⟩ := both
  refine (Scorecard.canaryFailed_alongside read read' riskier.canary).bind
    fun canary canary' degraded => ?_
  refine (Value.need_alongside read.security read'.security).bind fun _ _ both => ?_
  obtain ⟨⟨rfl, securityRead⟩, rfl, securityRead'⟩ := both
  refine (Scorecard.hasSecurityFindings_alongside securityRead securityRead' riskier.security).bind
    fun security security' found => .ok fun any => ?_
  simp only [Bool.or_eq_true] at any ⊢
  exact any.imp (Or.imp (fun on => failed on) fun on => degraded on) fun on => found on

end ReleaseGate
