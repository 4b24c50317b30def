import ReleaseGate.Value.Access

/-!
The states of a plan and the steps between them. A plan is executed only after approval, and
`verified` and `failed` are final.
-/

namespace ReleaseGate

inductive PlanStatus where
  | proposed
  | approved
  | executed
  | verified
  | failed
  deriving DecidableEq

namespace PlanStatus

def all : List PlanStatus := [.proposed, .approved, .executed, .verified, .failed]

def name : PlanStatus → Text
  | .proposed => "PROPOSED"
  | .approved => "APPROVED"
  | .executed => "EXECUTED"
  | .verified => "VERIFIED"
  | .failed => "FAILED"

def isTerminal : PlanStatus → Bool
  | .verified | .failed => true
  | _ => false

def mayBecome : PlanStatus → PlanStatus → Bool
  | .proposed, .proposed | .proposed, .approved | .proposed, .verified => true
  | .approved, .executed | .approved, .verified => true
  | .executed, .verified | .executed, .failed => true
  | _, _ => false

def ofName? (s : Text) : Option PlanStatus := all.find? fun p => p.name == s

def ofValue? (v : Value) : Option PlanStatus := all.find? fun p => .str p.name = v

def ofValue (v : Value) : Except Misfit PlanStatus :=
  match ofValue? v with
  | some p => .ok p
  | none => .error (.notAMember v "PlanStatus")

end PlanStatus

end ReleaseGate
