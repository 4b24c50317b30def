import ReleaseGate.Error
import ReleaseGate.Logging.Level
import ReleaseGate.Number.Numeral

/-!
Settings, read from environment variables once and reassigned at will. An entry point consults them
only for an argument that its caller leaves out. Reassigned settings hold any value; a check says
whether they are still in range.
-/

namespace ReleaseGate

structure Settings where
  threshold : Value
  auditPath : Value
  idempotencyDir : Value
  policyPath : Value
  learningMode : Value
  level : Value
  logDir : Value
  logFile : Value
  deriving DecidableEq

namespace Settings

def default : Settings where
  threshold := .float (Double.ofDigits false [0] [8, 5] 0)
  auditPath := .str "aegis_audit.jsonl"
  idempotencyDir := .str ""
  policyPath := .str ""
  learningMode := .bool true
  level := .str "INFO"
  logDir := .str ""
  logFile := .str "aegis.log"

def checkThreshold (s : Settings) : Except Error Unit := do
  let fromZero ← Misfit.lift ((Value.float (.zero false)).notAfter s.threshold)
  if !fromZero then throw .confidenceSetting
  let toOne ← Misfit.lift (s.threshold.notAfter (.float .one))
  if !toOne then throw .confidenceSetting

def checkLevel (s : Settings) : Except Error Unit :=
  match s.level with
  | .str name =>
      if Logging.capitals name ∈ Logging.settable then .ok () else .error (.levelSetting name)
  | _ => .error (.misfit .notAnObject)

def check (s : Settings) : Except Error Unit := do
  s.checkThreshold
  s.checkLevel

def thresholdOf (env : List (Text × Text)) : Except Error Value :=
  match env.lookup ↑"AEGIS_AUTO_EXECUTE_MIN_CONFIDENCE" with
  | none => .ok default.threshold
  | some text =>
      match Numeral.read? text with
      | some x => .ok (.float x)
      | none => .error (.notANumeral text)

/-- The settings that an environment gives, if they are in range. -/
def ofEnvironment (env : List (Text × Text)) : Except Error Settings := do
  let given (name : Text) (fallback : Value) : Value :=
    ((env.lookup name).map Value.str).getD fallback
  let stripped (name : Text) : Value :=
    .str (Text.ofList (Text.strip ((env.lookup name).getD "").toList))
  let s : Settings := {
    threshold := ← thresholdOf env
    auditPath := given "AEGIS_AUDIT_PATH" default.auditPath
    idempotencyDir := stripped "AEGIS_IDEMPOTENCY_DIR"
    policyPath := stripped "AEGIS_POLICY_PATH"
    learningMode := .bool ((env.lookup ↑"AEGIS_LEARNING_MODE").getD "1" == "1")
    level := given "AEGIS_LOG_LEVEL" default.level
    logDir := stripped "AEGIS_LOG_DIR"
    logFile := given "AEGIS_LOG_FILE" default.logFile }
  s.check
  return s

def groups : List Text := ["orchestrator", "policy", "logging"]

/-- The settings with one of them reassigned, by its group and name. A name that is none of a group
changes nothing. -/
def assign (s : Settings) (group name : Text) (v : Value) : Except Error Settings :=
  if group ∉ groups then .error (.misfit .notAnObject)
  else
    .ok (match group, name with
      | "orchestrator", "AUTO_EXECUTE_MIN_CONFIDENCE" => { s with threshold := v }
      | "orchestrator", "AUDIT_PATH" => { s with auditPath := v }
      | "orchestrator", "IDEMPOTENCY_DIR" => { s with idempotencyDir := v }
      | "policy", "POLICY_PATH" => { s with policyPath := v }
      | "policy", "LEARNING_MODE" => { s with learningMode := v }
      | "logging", "LEVEL" => { s with level := v }
      | "logging", "LOG_DIR" => { s with logDir := v }
      | "logging", "LOG_FILE" => { s with logFile := v }
      | _, _ => s)

def summary (s : Settings) : Value :=
  .object [
    ("orchestrator", .object [
      ("auto_execute_min_confidence", s.threshold),
      ("audit_path", s.auditPath),
      ("persistent_idempotency", .bool s.idempotencyDir.truthy)]),
    ("policy", .object [("policy_path", s.policyPath), ("learning_mode", s.learningMode)]),
    ("logging", .object [("level", s.level), ("log_dir", s.logDir)])]

end Settings

end ReleaseGate
