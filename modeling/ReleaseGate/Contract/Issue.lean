import ReleaseGate.Value.Key
import ReleaseGate.Sorting

/-!
What a contract finds wrong with a document: a place and a problem there, with the text that a
report shows for it.
-/

namespace ReleaseGate

inductive Problem where
  | missing
  | wrongKind (expected actual : String)
  | notAnObject
  | notAMapping
  | unknownProperty
  | blank
  | notAllowed (value : Text) (allowed : List Text)
  | outside (value : Value) (low high : Nat)
  | tooSmall (least : Nat)
  | negative (value : Int)
  | duplicateRule (id : Text)
  | wrongSchema (expected actual : Text)
  | notAHash
  | notTerminal (status : Text)
  | wrongLastTarget (status : Text) (target : Value)
  deriving DecidableEq

namespace Problem

def text : Problem → Text
  | .missing => "missing"
  | .wrongKind expected actual => "expected " ++ expected ++ ", got " ++ actual
  | .notAnObject => "expected object"
  | .notAMapping => "expected a mapping"
  | .unknownProperty => "unknown property"
  | .blank => "must not be empty"
  | .notAllowed value allowed =>
      Text.quoted value ++ " not in " ++ Text.quotedList (sortTexts allowed)
  | .outside value low high =>
      value.display ++ " outside [" ++ intText low ++ ", " ++ intText high ++ "]"
  | .tooSmall least => "must be >= " ++ intText least
  | .negative value => "must be >= 0, got " ++ intText value
  | .duplicateRule id => "duplicate rule id " ++ Text.quoted id
  | .wrongSchema expected actual => "expected " ++ expected ++ ", got " ++ actual
  | .notAHash => "expected 64 lowercase hex characters"
  | .notTerminal status => "audit records are written in a terminal state, got " ++ status
  | .wrongLastTarget status target =>
      status ++ " does not match last transition target " ++ target.display

end Problem

inductive Issue where
  | at (path : Path) (problem : Problem)
  /-- The whole document is no object. -/
  | notADocument (name : Text)
  deriving DecidableEq

namespace Issue

def text : Issue → Text
  | .at path problem => path.text ++ ": " ++ problem.text
  | .notADocument name => name ++ " is not a dict"

def report (heading : Text) (issues : List Issue) : Text :=
  heading ++ " (" ++ intText issues.length ++ " issues):\n" ++
    Text.intercalate "\n" (issues.map fun i => "  - " ++ i.text)

end Issue

end ReleaseGate
