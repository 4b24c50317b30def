import ReleaseGate.Value.Basic

/-!
Levels of log messages. A level goes by a name, in whatever letter case, and is compared by number.
-/

namespace ReleaseGate.Logging

def levels : List (Text × Nat) :=
  [("NOTSET", 0), ("DEBUG", 10), ("INFO", 20), ("WARN", 30), ("WARNING", 30), ("ERROR", 40),
   ("CRITICAL", 50), ("FATAL", 50)]

/-- The capital of a letter that a level's name can have; two letters beyond ASCII have such ones
too. -/
def capital (c : Char) : Char :=
  if c = 'ı' then 'I' else if c = 'ſ' then 'S' else c.toUpper

def capitals (s : Text) : Text := Text.ofList (s.toList.map (CodePoint.map capital))

def level? (name : Text) : Option Nat := levels.lookup (capitals name)

/-- The names that the settings may give. -/
def settable : List Text := ["DEBUG", "INFO", "WARNING", "ERROR", "CRITICAL"]

end ReleaseGate.Logging
