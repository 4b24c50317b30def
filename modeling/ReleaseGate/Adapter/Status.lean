import ReleaseGate.Value.Access

/-!
How the work of one adapter ended.
-/

namespace ReleaseGate

inductive AdapterStatus where
  | success
  | skipped
  | failed
  deriving DecidableEq

namespace AdapterStatus

def all : List AdapterStatus := [.success, .skipped, .failed]

def name : AdapterStatus → Text
  | .success => "SUCCESS"
  | .skipped => "SKIPPED"
  | .failed => "FAILED"

def ofValue? (v : Value) : Option AdapterStatus := all.find? fun s => .str s.name = v

def ofValue (v : Value) : Except Misfit AdapterStatus :=
  match ofValue? v with
  | some s => .ok s
  | none => .error (.notAMember v "AdapterStatus")

end AdapterStatus

end ReleaseGate
