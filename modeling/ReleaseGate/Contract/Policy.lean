import ReleaseGate.Contract.Check
import ReleaseGate.Policy.Action

/-!
The contract of policy documents, of any notation: a version, optional defaults, and rules with
distinct ids, each with a condition, an action, a severity and a reason.
-/

namespace ReleaseGate.Contract

open Check

variable {α : Type} [Document α]

def ruleActions : List Text := PolicyAction.prescribable.map PolicyAction.name

def ruleSeverities : List Text := Severity.assignable.map Severity.name

def ruleMembers : List Text := ["id", "when", "then", "severity", "reason"]

def ruleIds (rule : α) : List Text :=
  match Document.member? rule "id" with
  | none => []
  | some id =>
      if Document.fits .text id && Document.text id != "" then [Document.text id] else []

def freshId (used : List Text) : Check α := fun path id =>
  if Document.text id ∈ used then [.at path (.duplicateRule (Document.text id))] else []

def rule (used : List Text) : Check α :=
  object (both [
    onlyMembers ruleMembers,
    required "id" .text (notBlank.and (freshId used)),
    required "when" .text notBlank,
    required "then" .text (oneOf ruleActions),
    required "severity" .text (oneOf ruleSeverities),
    required "reason" .text anything])

/-- The rules from an index on, after rules with the given ids. -/
def rulesFrom (path : Path) (used : List Text) (index : Nat) : List α → List Issue
  | [] => []
  | r :: rs =>
      rule used (path.item index) r ++ rulesFrom path (used ++ ruleIds r) (index + 1) rs

def rules : Check α := fun path doc => rulesFrom path [] 0 (Document.items doc)

def defaults : Check α :=
  both [onlyMembers ["learning_mode"], optional "learning_mode" .flag anything]

def policyMembers : List Text := ["version", "defaults", "rules"]

def policyIssues (doc : α) : List Issue :=
  if Document.fits .object doc then
    both [
      onlyMembers policyMembers,
      required "version" .text notBlank,
      optional "defaults" .object defaults,
      required "rules" .list rules] [] doc
  else [.notADocument "policy"]

/-- The unknown properties of the objects that the contract looks into. -/
def unknownPolicyKeys (doc : α) : List (List Key) :=
  let unknown (allowed : List Text) (part : α) := unknownKeys allowed (Document.keys part)
  unknown policyMembers doc ::
    ((Document.member? doc "defaults").toList.map (unknown ["learning_mode"]) ++
      ((Document.member? doc "rules").toList.flatMap Document.items).map (unknown ruleMembers))

/-- Whether the unknown properties of every object have an order in which to be listed. -/
def hasOrderedKeys (doc : α) : Bool := (unknownPolicyKeys doc).all Key.areOrdered

end ReleaseGate.Contract
