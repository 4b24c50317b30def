import ReleaseGate.Contract.Plan
import ReleaseGate.Condition.Basic
import ReleaseGate.Yaml.Fault

/-!
Why an operation of the release gate fails. Each failure is one cause; `message?` is the text that a
report shows, for the causes that have one.
-/

namespace ReleaseGate

inductive FileFault where
  | notFound
  | alreadyExists
  | isADirectory
  | notADirectory
  | nameTooLong
  /-- A name stands for no bytes. -/
  | notEncodable
  deriving DecidableEq

inductive Error where
  /-- Signals are missing or of the wrong kind. -/
  | incompleteSignals (issues : List Issue)
  /-- Run metadata, inputs or policy snapshot of a verdict are not as their contracts say. -/
  | invalidVerdictInput (issues : List Issue)
  /-- A text is no condition. -/
  | condition (fault : Condition.Fault) (source : Text)
  /-- A rule cannot be checked or evaluated; without a rule, the policy as a whole. -/
  | invalidPolicy (rule : Value) (reason : Text) (position : Option Nat)
  | contractViolation (contract : Text) (issues : List Issue)
  | invalidTransition (old new : PlanStatus)
  | auditUnopenable (path : Text)
  | auditUnwritable (path : Text)
  | auditCorruptTail (path : Text)
  | misfit (m : Misfit)
  | thresholdOutside (threshold : Value)
  /-- A plan belongs to another run than the verdict. -/
  | foreignPlan (planRun verdictRun : Value)
  | unsupportedFileType (suffix : Text)
  | noPolicyPath
  | notANumeral (text : Text)
  | confidenceSetting
  | levelSetting (level : Text)
  | unnamedAdapter
  | timeoutNotPositive (seconds : Value)
  | malformedJson
  | malformedYaml (fault : Yaml.Fault)
  | file (fault : FileFault)
  deriving DecidableEq

instance : Coe Misfit Error := ⟨.misfit⟩

def Misfit.lift {α : Type} (r : Except Misfit α) : Except Error α := r.mapError .misfit

namespace Misfit

def message? : Misfit → Option Text
  | .missingMember key => some (Text.quoted key)
  | .notAMember value enumeration =>
      some (value.spell ++ " is not a valid " ++ enumeration)
  | .notANumber => some "cannot convert float NaN to integer"
  | .notAPair index length =>
      some ("dictionary update sequence element #" ++ intText index ++ " has length " ++
        intText length ++ "; 2 is required")
  | .wrongType | .notAnObject | .tooLarge | .notQuantizable | .notEncodable => none

end Misfit

namespace Error

/-- The heading of a complaint about a rule, or about a policy where no rule has a name. -/
def ruleHeading (rule : Value) (position : Option Nat) : Text :=
  "Invalid " ++ (if rule.truthy then "rule " ++ rule.spell else "policy") ++
    match position with
    | none => ""
    | some n => " (position " ++ intText n ++ ")"

def message? : Error → Option Text
  | .incompleteSignals issues => some (Issue.report "Incomplete signal vector" issues)
  | .invalidVerdictInput issues => some (Issue.report "Invalid verdict input" issues)
  | .condition fault source => some (fault.text source)
  | .invalidPolicy rule reason position => some (ruleHeading rule position ++ ": " ++ reason)
  | .contractViolation contract issues =>
      some (Issue.report ("Contract violation in " ++ contract) issues)
  | .invalidTransition old new =>
      some ("Invalid plan transition: " ++ old.name ++ " -> " ++ new.name)
  | .auditUnopenable path => some ("Cannot open audit log " ++ path)
  | .auditUnwritable path => some ("Cannot append to audit log " ++ path)
  | .auditCorruptTail path =>
      some ("Audit log " ++ path ++ " has a corrupt last entry; refusing to extend chain")
  | .misfit m => m.message?
  | .thresholdOutside threshold =>
      some ("auto_execute_min_confidence must be within [0, 1], got " ++ threshold.display)
  | .foreignPlan planRun verdictRun =>
      some ("Plan run_id " ++ planRun.display ++ " does not match verdict run_id " ++
        verdictRun.display)
  | .unsupportedFileType suffix => some ("Unsupported policy file type: " ++ suffix)
  | .noPolicyPath => some "No policy path given and AEGIS_POLICY_PATH is not set"
  | .notANumeral text => some ("could not convert string to float: " ++ Text.quoted text)
  | .confidenceSetting => some "AEGIS_AUTO_EXECUTE_MIN_CONFIDENCE must be within [0, 1]"
  | .levelSetting level => some ("Invalid AEGIS_LOG_LEVEL: " ++ level)
  | .unnamedAdapter => some "Adapter name must be non-empty"
  | .timeoutNotPositive seconds =>
      some ("timeout_seconds must be positive, got " ++ seconds.display)
  | .malformedYaml fault => fault.message?.map .plain
  | .malformedJson | .file _ => none

end Error

end ReleaseGate
