import ReleaseGate.Contract.Issue

/-!
The ten signals that conditions can mention. A vector has a value for every signal; it is read from
a document in which each of them is present and of its kind, and nothing is filled in.
-/

namespace ReleaseGate

inductive Signal where
  | ciStatus
  | criticalCount
  | highCount
  | infraChange
  | dbMigration
  | authChange
  | secretsChange
  | dependencyChange
  | errorRate
  | latencyDelta
  deriving DecidableEq

inductive SignalKind where
  | text
  | count
  | flag
  | rate
  deriving DecidableEq

namespace Signal

def all : List Signal :=
  [.ciStatus, .criticalCount, .highCount, .infraChange, .dbMigration, .authChange, .secretsChange,
   .dependencyChange, .errorRate, .latencyDelta]

/-- The name of the signal in conditions. -/
def identifier : Signal → Text
  | .ciStatus => "ci.status"
  | .criticalCount => "security.critical_count"
  | .highCount => "security.high_count"
  | .infraChange => "change.infra"
  | .dbMigration => "change.db_migration"
  | .authChange => "change.auth"
  | .secretsChange => "change.secrets"
  | .dependencyChange => "change.dependency"
  | .errorRate => "canary.error_rate"
  | .latencyDelta => "canary.latency_delta"

/-- The name of the signal in documents. -/
def field : Signal → Text
  | .ciStatus => "ci_status"
  | .criticalCount => "security_critical_count"
  | .highCount => "security_high_count"
  | .infraChange => "infra_change"
  | .dbMigration => "db_migration"
  | .authChange => "auth_change"
  | .secretsChange => "secrets_change"
  | .dependencyChange => "dependency_change"
  | .errorRate => "canary_error_rate"
  | .latencyDelta => "canary_latency_delta"

def kind : Signal → SignalKind
  | .ciStatus => .text
  | .criticalCount | .highCount => .count
  | .infraChange | .dbMigration | .authChange | .secretsChange | .dependencyChange => .flag
  | .errorRate | .latencyDelta => .rate

def identifiers : List Text := all.map identifier

def ofIdentifier? (name : Text) : Option Signal := all.find? fun s => s.identifier == name

end Signal

abbrev SignalVector := Signal → Value

namespace SignalKind

/-- What keeps a value from being one of this kind. -/
def problem? : SignalKind → Value → Option Problem
  | .text, .str _ | .flag, .bool _ | .rate, .int _ | .rate, .float _ => none
  | .count, .int i => if i < 0 then some (.negative i) else none
  | .text, v => some (.wrongKind "string" v.typeName)
  | .count, v => some (.wrongKind "integer" v.typeName)
  | .flag, v => some (.wrongKind "boolean" v.typeName)
  | .rate, v => some (.wrongKind "number" v.typeName)

end SignalKind

namespace SignalVector

/-- The issue of one signal; null counts as missing. -/
def issue? (s : Signal) (found : Option Value) : Option Issue :=
  match found with
  | none | some .null => some (.at [.text s.field] .missing)
  | some v => (s.kind.problem? v).map (.at [.text s.field])

def issues : Value → List Issue
  | .object members => Signal.all.filterMap fun s => issue? s (members.lookup s.field)
  | _ => [.at [.text "signals"] .notAMapping]

def ofMembers (v : Value) : SignalVector := fun s => (v.member? s.field).getD .null

def ofValue (v : Value) : Except (List Issue) SignalVector :=
  match issues v with
  | [] => .ok (ofMembers v)
  | found => .error found

/-- The vector of a document that has exactly the ten fields, whatever they hold. -/
def ofFields? (v : Value) : Option SignalVector :=
  match v with
  | .object members =>
      let names := Signal.all.map Signal.field
      if names.all (fun n => (members.lookup n).isSome) &&
          members.all (fun m => names.contains m.1) then
        some (ofMembers v)
      else none
  | _ => none

def toValue (x : SignalVector) : Value := .object (Signal.all.map fun s => (s.field, x s))

end SignalVector

end ReleaseGate
