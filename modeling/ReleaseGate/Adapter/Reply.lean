import ReleaseGate.Contract.Plan
import ReleaseGate.Clock

/-!
What adapters answer, and the result that is recorded for it. Every answer, a failure included,
becomes a result that meets its contract where the clock's readings do: what is no valid result is
recorded as a failed one that says why.
-/

namespace ReleaseGate

structure AdapterResult where
  adapter : Text
  status : AdapterStatus
  timestamp : Text
  message : Option Text
  deriving DecidableEq

def AdapterResult.toValue (r : AdapterResult) : Value :=
  .object (([("adapter", .str r.adapter), ("status", .str r.status.name),
    ("timestamp", .str r.timestamp)] : List (Text × Value)) ++
      (r.message.map fun m => (("message" : Text), Value.str m)).toList)

/-- A status that an adapter gives: one of the three, or something else. -/
inductive GivenStatus where
  | known (s : AdapterStatus)
  | other (v : Value)
  deriving DecidableEq

structure GivenResult where
  adapter : Value
  status : GivenStatus
  timestamp : Value
  message : Value
  deriving DecidableEq

/-- Builds a result from a document that need not be as its contract says; no message is null. -/
def GivenResult.ofValue (v : Value) : Except Misfit GivenResult := do
  let adapter ← v.need "adapter"
  let status ← AdapterStatus.ofValue (← v.need "status")
  let timestamp ← v.need "timestamp"
  let message := (← v.find "message").getD .null
  return ⟨adapter, .known status, timestamp, message⟩

structure Failure where
  kind : String
  text : Text
  deriving DecidableEq

def Failure.timeoutKind : String := "TimeoutError"

inductive Reply where
  | given (r : GivenResult)
  | document (v : Value)
  | failed (f : Failure)
  deriving DecidableEq

namespace Reply

def failure (name message : Text) : StateM Clock AdapterResult := do
  return ⟨name, .failed, ← now, some message⟩

def invalid (name : Text) (issues : List Text) : StateM Clock AdapterResult :=
  failure name ("invalid adapter result: " ++ Text.intercalate "; " issues)

/-- The members of a result in the order in which a contract sees them; null says no message. -/
def givenMembers (r : GivenResult) (s : AdapterStatus) : List (Text × Value) :=
  ([("adapter", r.adapter), ("status", .str s.name), ("timestamp", r.timestamp)] :
    List (Text × Value)) ++ if r.message = .null then [] else [(("message" : Text), r.message)]

def recorded? (doc : Value) : Except (List Issue) AdapterResult :=
  match Contract.adapterResult [] doc with
  | [] =>
      .ok {
        adapter := ((doc.member? "adapter").getD .null).text
        status := (AdapterStatus.ofValue? ((doc.member? "status").getD .null)).getD .failed
        timestamp := ((doc.member? "timestamp").getD .null).text
        message := (doc.member? "message").bind Value.text? }
  | issues => .error issues

def record (name : Text) (doc : Value) : StateM Clock AdapterResult :=
  match recorded? doc with
  | .ok r => pure r
  | .error issues => invalid name (issues.map Issue.text)

/-- A document without the members that no result has, over the name of the adapter and a time. -/
def completed (name timestamp : Text) (members : List (Text × Value)) : Value :=
  .object ((members.filter fun m => m.1 ∈ Contract.adapterResultMembers).foldl
    (fun ms m => putMember m.1 m.2 ms) [("adapter", .str name), ("timestamp", .str timestamp)])

def settle (name : Text) : Reply → StateM Clock AdapterResult
  | .failed f => failure name (f.kind ++ ": " ++ f.text)
  | .given r =>
      match r.status with
      | .known s => record name (.object (givenMembers r s))
      | .other v => invalid name ["status: expected AdapterStatus, got " ++ v.typeName]
  | .document (.object members) => do record name (completed name (← now) members)
  | .document v => invalid name ["unexpected return type " ++ v.typeName]

end Reply

end ReleaseGate
