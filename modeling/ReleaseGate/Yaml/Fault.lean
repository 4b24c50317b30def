import ReleaseGate.Yaml.Date

/-!
Why a YAML text is no document: its form is wrong, or one of its parts stands for nothing.
-/

namespace ReleaseGate.Yaml

inductive Fault where
  | malformed
  /-- A collection stands as a key. -/
  | keyNotScalar
  | impossibleDate (fault : DateFault)
  /-- An integer has the mark of its base and no digit. -/
  | noDigits (base : Nat)
  deriving DecidableEq

def Fault.message? : Fault → Option String
  | .malformed | .keyNotScalar => none
  | .impossibleDate fault => some fault.message
  | .noDigits base => some ("invalid literal for int() with base " ++ intText base ++ ": ''")

end ReleaseGate.Yaml
