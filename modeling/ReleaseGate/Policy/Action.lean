import ReleaseGate.Value.Access

/-!
What a rule prescribes, what the release factory can do, and how severe a rule is. In learning mode
an allowed change is held for a human instead of being deployed.
-/

namespace ReleaseGate

inductive PolicyAction where
  | killAndRollback
  | holdForHuman
  | requireApproval
  | allow
  | none
  deriving DecidableEq

namespace PolicyAction

def prescribable : List PolicyAction := [.killAndRollback, .holdForHuman, .requireApproval, .allow]

def all : List PolicyAction := prescribable ++ [.none]

def name : PolicyAction → Text
  | .killAndRollback => "KILL_AND_ROLLBACK"
  | .holdForHuman => "HOLD_FOR_HUMAN"
  | .requireApproval => "REQUIRE_APPROVAL"
  | .allow => "ALLOW"
  | .none => "NONE"

def ofValue? (v : Value) : Option PolicyAction := all.find? fun a => .str a.name = v

def ofValue (v : Value) : Except Misfit PolicyAction :=
  match ofValue? v with
  | some a => .ok a
  | .none => .error (.notAMember v "PolicyAction")

end PolicyAction

inductive FactoryAction where
  | killAndRollback
  | holdForHuman
  | approveAutomergeDeploy
  | none
  deriving DecidableEq

namespace FactoryAction

def proposable : List FactoryAction := [.killAndRollback, .holdForHuman, .approveAutomergeDeploy]

def all : List FactoryAction := proposable ++ [.none]

def name : FactoryAction → Text
  | .killAndRollback => "KILL_AND_ROLLBACK"
  | .holdForHuman => "HOLD_FOR_HUMAN"
  | .approveAutomergeDeploy => "APPROVE_AUTOMERGE_DEPLOY"
  | .none => "NONE"

end FactoryAction

/-- The factory action that stands for a policy action. -/
def PolicyAction.toFactory (a : PolicyAction) (learning : Bool) : FactoryAction :=
  match a with
  | .killAndRollback => .killAndRollback
  | .holdForHuman | .requireApproval => .holdForHuman
  | .allow => if learning then .holdForHuman else .approveAutomergeDeploy
  | .none => .none

inductive Severity where
  | block
  | high
  | info
  | none
  deriving DecidableEq

namespace Severity

def assignable : List Severity := [.block, .high, .info]

def all : List Severity := assignable ++ [.none]

def name : Severity → Text
  | .block => "BLOCK"
  | .high => "HIGH"
  | .info => "INFO"
  | .none => "NONE"

/-- The most severe comes first. -/
def rank : Severity → Nat
  | .block => 0
  | .high => 1
  | .info => 2
  | .none => 3

def ofValue? (v : Value) : Option Severity := all.find? fun s => .str s.name = v

def ofValue (v : Value) : Except Misfit Severity :=
  match ofValue? v with
  | some s => .ok s
  | .none => .error (.notAMember v "Severity")

end Severity

end ReleaseGate
