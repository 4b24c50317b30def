import ReleaseGate.Policy.Admission
import ReleaseGate.Files
import ReleaseGate.Json.Read
import ReleaseGate.Yaml.Read

/-!
Policy files. The suffix of the name says whether a file is JSON or YAML; an empty document counts
as an empty object.
-/

namespace ReleaseGate.Policy

inductive Notation where
  | json
  | yaml
  deriving DecidableEq

/-- The notation that a suffix stands for, in whatever letter case. -/
def Notation.ofSuffix? (s : Text) : Option Notation :=
  let lower := Text.ofList (s.toList.map (CodePoint.map Char.toLower))
  if lower = ".yaml" ∨ lower = ".yml" then some .yaml
  else if lower = ".json" then some .json
  else none

def ofJson (default : Value) (text : Text) : Except Error Policy :=
  match Json.ofText? text with
  | none => .error .malformedJson
  | some .null => accept default (.object [])
  | some v => accept default v

def ofYaml (default : Value) (text : Text) : Except Error Policy :=
  match Yaml.read text with
  | .error fault => .error (.malformedYaml fault)
  | .ok .null => accept default (.object [])
  | .ok n => acceptNode default n

def load (default : Value) (files : Files) (path : FilePath) : Except Error Policy :=
  match Notation.ofSuffix? path.suffix with
  | none =>
      .error (.unsupportedFileType (if path.suffix = "" then "(none)" else path.suffix))
  | some n => do
      let text ← (files.read path).mapError .file
      let text := Text.ofList (Text.unifyLineEnds (Text.toList text))
      match n with
      | .json => ofJson default text
      | .yaml => ofYaml default text

end ReleaseGate.Policy
