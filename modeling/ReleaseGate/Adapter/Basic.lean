import ReleaseGate.Adapter.Reply
import ReleaseGate.Plan.Basic

/-!
Adapters carry out an action for a plan. They may answer at once or later, and a later answer can be
bounded in time; one that never comes counts as a failure. An adapter goes by its name if it has a
proper one, and by its kind otherwise.
-/

namespace ReleaseGate

/-- What an adapter sees of the execution that it is part of. -/
structure Request where
  requestId : Value
  runId : Value
  verdict : Value
  plan : Plan

inductive Delivery where
  | atOnce (r : Reply)
  | later (r : Reply)
  | never

structure Adapter where
  name : Option Value
  kind : String
  /-- Carries out an action; an adapter without this cannot do anything. -/
  perform : Option (Value → Request → StateM Clock Delivery)

namespace Adapter

def displayName (a : Adapter) : Text :=
  match a.name with
  | some (.str s) => if Text.isBlankText s then a.kind else s
  | _ => a.kind

def cannotPerform (kind : String) : Failure :=
  ⟨"AttributeError", "'" ++ kind ++ "' object has no attribute 'execute'"⟩

def deliver (a : Adapter) (action : Value) (request : Request) : StateM Clock Delivery :=
  match a.perform with
  | some f => f action request
  | none => pure (.atOnce (.failed (cannotPerform a.kind)))

/-- An answer that never comes fails. -/
def awaited : Delivery → Reply
  | .atOnce r | .later r => r
  | .never => .failed ⟨Failure.timeoutKind, ""⟩

def run (a : Adapter) (action : Value) (request : Request) : StateM Clock AdapterResult := do
  Reply.settle a.displayName (awaited (← a.deliver action request))

/-- An adapter that is a function with a name. -/
def ofFunction (name : Value) (f : Value → Request → StateM Clock Delivery) :
    Except Error Adapter :=
  if name.truthy then .ok ⟨some name, "CallableAdapter", some f⟩ else .error .unnamedAdapter

def spellFunction (name : Value) : Except Error Text :=
  if name.truthy then .ok ("CallableAdapter(name=" ++ name.spell ++ ")")
  else .error .unnamedAdapter

def timedOut (name seconds : Value) : StateM Clock Delivery := do
  return .later (.given
    ⟨name, .known .failed, .str (← now), .str ("timed out after " ++ seconds.display ++ "s")⟩)

/-- The adapter with a bound on its time, which applies to answers that come later. -/
def bounded (inner : Adapter) (seconds : Value) : Except Error Adapter := do
  if ← Misfit.lift (seconds.notAfter (.int 0)) then throw (.timeoutNotPositive seconds)
  let name := inner.name.getD (.str inner.kind)
  return {
    name := some name
    kind := "TimeoutAdapter"
    perform := some fun action request => do
      match ← inner.deliver action request with
      | .never => timedOut name seconds
      | .later (.failed f) =>
          if f.kind = Failure.timeoutKind then timedOut name seconds else return .later (.failed f)
      | .later r | .atOnce r => return .later r }

end Adapter

end ReleaseGate
