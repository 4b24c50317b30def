import ReleaseGate.Proofs.Condition.Agreement
import ReleaseGate.Proofs.Policy.Evaluated

/-!
What the outcome of a policy depends on. Of two complete signal vectors that agree on the signals
that the rules mention, evaluation makes the same: the same rules match, and where it fails it fails
at the same rule with the same complaint.
-/

namespace ReleaseGate

namespace Policy

/-- The identifiers that the scan finds in conditions. -/
def mentionedIn (conditions : List Value) : List Text :=
  conditions.flatMap fun c => (Condition.mentions c.text).map Prod.fst

def mentioned (p : Policy) : List Text := mentionedIn (p.rules.map Rule.condition)

def documentMentioned (v : Value) : List Text :=
  mentionedIn (((v.member? "rules").getD .null).items.filterMap fun d => d.member? "when")

/-- The evaluation of a policy that is at hand: its identifiers are checked before any rule is
examined. -/
def evaluateChecked (p : Policy) (x : SignalVector) (learningMode : Option Value) :
    Except Error Evaluation := do
  checkIdentifiers p.conditions
  p.evaluate x learningMode

section

variable {x y : SignalVector} (hx : x.Complete) (hy : y.Complete)
include hx hy

/-- A rule reads only the signals its condition mentions. -/
theorem rule_holds_congr {r : Rule}
    (agree : x.AgreeOn ((Condition.mentions r.condition.text).map Prod.fst) y) :
    r.holds x = r.holds y := by
  rw [Rule.holds, Rule.holds]
  cases text : r.condition with
  | str source =>
      rw [text] at agree
      have same : Condition.evaluate source x = Condition.evaluate source y :=
        Condition.evaluate_congr hx hy agree
      simp only [same]
  | _ => rfl

theorem matching_congr {rules : List Rule}
    (agree : x.AgreeOn (mentionedIn (rules.map Rule.condition)) y) :
    matching x rules = matching y rules := by
  induction rules with
  | nil => rfl
  | cons r rs ih =>
      simp only [mentionedIn, List.map_cons, List.flatMap_cons] at agree
      have first := agree.mono fun n hn => List.mem_append_left _ hn
      have later := agree.mono fun n hn => List.mem_append_right _ hn
      rw [matching, matching, rule_holds_congr hx hy first, ih later]

/-- Vectors that agree on what a policy mentions are evaluated alike, errors included. -/
theorem evaluate_congr {p : Policy} (agree : x.AgreeOn p.mentioned y)
    (learningMode : Option Value) : p.evaluate x learningMode = p.evaluate y learningMode := by
  rw [evaluate, evaluate, matching_congr hx hy agree]

end

theorem conditions_of_read {docs : List Value} {rules : List Rule}
    (reads : List.Forall₂ (fun d r => Rule.ReadFrom r d) docs rules) :
    docs.filterMap (fun d => d.member? "when") = rules.map Rule.condition := by
  induction reads with
  | nil => rfl
  | cons first _ ih => simp only [List.filterMap_cons, first.condition, ih, List.map_cons]

/-- What a document mentions is what its policy mentions. -/
theorem mentioned_of_read {p : Policy} {default v : Value} (reads : p.ReadFrom default v) :
    documentMentioned v = p.mentioned := by
  obtain ⟨docs, found, reads⟩ := reads.rules
  rw [documentMentioned, found]
  exact congrArg mentionedIn (conditions_of_read reads)

/-- A policy that comes of an unchecked document mentions what the document does. -/
theorem mentioned_of_accept {p : Policy} {default v : Value} (accepted : accept default v = .ok p) :
    p.mentioned = documentMentioned v := by
  obtain ⟨clean, members, rfl⟩ := clean_of_accept accepted
  obtain ⟨q, reads⟩ := Contract.policyIssues_clean default clean
  rw [accept_of_read reads clean] at accepted
  obtain ⟨-, -, same⟩ := bind_eq_ok accepted
  rw [← Except.ok.inj same, mentioned_of_read reads]

end Policy

/-- A document of signals without issues has a value of its kind for every signal. -/
theorem SignalVector.complete_of_issues {signals : Value} (h : issues signals = []) :
    (ofMembers signals).Complete := by
  cases signals with
  | object members =>
      intro s
      have found := List.filterMap_eq_nil_iff.1 h s (by cases s <;> decide)
      show s.kind.problem? ((members.lookup s.field).getD .null) = none
      cases given : members.lookup s.field with
      | none => rw [given] at found; cases found
      | some v =>
          rw [given] at found
          cases v with
          | null => cases found
          | _ => exact Option.map_eq_none_iff.1 found
  | _ => cases h

namespace Policy

/-- The outcome of a policy depends only on the signals that its rules mention, be the policy at
hand or to be read from a document, which may be refused, and be the signals a vector or a document.
-/
theorem outcome_depends_on_mentioned :
    (∀ (p : Policy) (learningMode : Option Value) (x y : SignalVector), x.Complete → y.Complete →
      x.AgreeOn p.mentioned y →
      p.evaluateChecked x learningMode = p.evaluateChecked y learningMode) ∧
    (∀ (default v : Value) (learningMode : Option Value) (x y : SignalVector),
      x.Complete → y.Complete → x.AgreeOn (documentMentioned v) y →
      (accept default v >>= fun p => p.evaluate x learningMode) =
        accept default v >>= fun p => p.evaluate y learningMode) ∧
    ∀ (default v : Value) (learningMode : Option Value) (signals others : Value),
      SignalVector.issues signals = [] → SignalVector.issues others = [] →
      (SignalVector.ofMembers signals).AgreeOn (documentMentioned v)
        (SignalVector.ofMembers others) →
      evaluateDocument default v signals learningMode =
        evaluateDocument default v others learningMode := by
  have documents : ∀ (default v : Value) (learningMode : Option Value) (x y : SignalVector),
      x.Complete → y.Complete → x.AgreeOn (documentMentioned v) y →
      (accept default v >>= fun p => p.evaluate x learningMode) =
        accept default v >>= fun p => p.evaluate y learningMode := by
    intro default v learningMode x y hx hy agree
    cases accepted : accept default v with
    | error e => rfl
    | ok p => exact evaluate_congr hx hy (mentioned_of_accept accepted ▸ agree) learningMode
  refine ⟨fun p learningMode x y hx hy agree => ?_, documents,
    fun default v learningMode signals others complete also agree => ?_⟩
  · rw [evaluateChecked, evaluateChecked, evaluate_congr hx hy agree learningMode]
  · rw [evaluateDocument, evaluateDocument, vector_of_complete complete, vector_of_complete also]
    exact documents default v learningMode _ _ (SignalVector.complete_of_issues complete)
      (SignalVector.complete_of_issues also) agree

def riskySignals : Value :=
  .object [("ci_status", .str "failure"), ("security_critical_count", .int 4),
    ("security_high_count", .int 2), ("infra_change", .bool true), ("db_migration", .bool true),
    ("auth_change", .bool true), ("secrets_change", .bool false),
    ("dependency_change", .bool true), ("canary_error_rate", .int 1),
    ("canary_latency_delta", .int 3)]

theorem outcome_depends_on_mentioned_infra :
    SignalVector.issues infraSignals = [] ∧ SignalVector.issues riskySignals = [] ∧
    infraPolicy.mentioned = [↑"change.infra", ↑"ci.status"] ∧
    infraPolicy.evaluateChecked (SignalVector.ofMembers infraSignals) none =
      infraPolicy.evaluateChecked (SignalVector.ofMembers riskySignals) none ∧
    (accept (.bool false) infraPolicy.toValue >>= fun p =>
        p.evaluate (SignalVector.ofMembers infraSignals) none) =
      (accept (.bool false) infraPolicy.toValue >>= fun p =>
        p.evaluate (SignalVector.ofMembers riskySignals) none) ∧
    evaluateDocument (.bool false) infraPolicy.toValue infraSignals none =
      evaluateDocument (.bool false) infraPolicy.toValue riskySignals none := by
  have complete : SignalVector.issues infraSignals = [] := by decide +kernel
  have also : SignalVector.issues riskySignals = [] := by decide +kernel
  have mentioned : infraPolicy.mentioned = [↑"change.infra", ↑"ci.status"] := by decide +kernel
  have written : documentMentioned infraPolicy.toValue = ["change.infra", "ci.status"] := by
    decide +kernel
  have agree : (SignalVector.ofMembers infraSignals).AgreeOn ["change.infra", "ci.status"]
      (SignalVector.ofMembers riskySignals) := by
    intro s hs
    cases s with
    | ciStatus | infraChange => exact Or.inl rfl
    | _ => exact absurd hs (by decide +kernel)
  have hx := SignalVector.complete_of_issues complete
  have hy := SignalVector.complete_of_issues also
  obtain ⟨policies, documents, evaluations⟩ := outcome_depends_on_mentioned
  exact ⟨complete, also, mentioned, policies infraPolicy none _ _ hx hy (mentioned ▸ agree),
    documents _ _ none _ _ hx hy (written ▸ agree),
    evaluations _ _ none _ _ complete also (written ▸ agree)⟩

end Policy

end ReleaseGate
