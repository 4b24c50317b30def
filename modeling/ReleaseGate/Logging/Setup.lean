import ReleaseGate.Settings
import ReleaseGate.Files

/-!
Set-up of loggers. A logger writes to the console and, where a directory is given, to a file in it.
Setting a logger up again changes its level and leaves its handlers alone.
-/

namespace ReleaseGate.Logging

inductive Handler where
  | file (path : FilePath)
  | console
  deriving DecidableEq

namespace Handler

def name : Handler → Text
  | .file _ => "RotatingFileHandler"
  | .console => "StreamHandler"

/-- The least level that a handler takes; a file takes more than the console. -/
def level : Handler → Nat
  | .file _ => 10
  | .console => 20

end Handler

structure Logger where
  level : Nat
  handlers : List Handler
  deriving DecidableEq

structure Request where
  name : Text
  file : Value
  level : Value
  directory : Value

structure State where
  loggers : List (Text × Logger)
  files : Files

namespace State

def empty : State := ⟨[], .empty⟩

def find (s : State) (name : Text) : Logger := (s.loggers.lookup name).getD ⟨0, []⟩

def put (s : State) (name : Text) (l : Logger) : State :=
  { s with loggers := (name, l) :: s.loggers.filter fun x => x.1 != name }

end State

def pathOf (v : Value) : Except Error FilePath :=
  match v with
  | .str s => .ok (.ofText s)
  | _ => .error (.misfit .wrongType)

def levelOf (v : Value) : Except Error Nat :=
  match v with
  | .str name =>
      match level? name with
      | some n => .ok n
      | none => .error (.misfit .notAnObject)
  | _ => .error (.misfit .notAnObject)

def openFile (files : Files) (directory file : Value) : Except Error (FilePath × Files) := do
  let name ← pathOf file
  let base ← pathOf directory
  let path := if name.head? = some FilePath.rootName then name else base ++ name
  let files ← (files.makeDirectory path.parent).mapError .file
  let files ← (files.append path "").mapError .file
  return (path, files)

/-- Sets a logger up; its level counts even where a handler cannot be made. -/
def setup (r : Request) : ExceptT Error (StateM State) Logger := do
  let level ← levelOf r.level
  let s ← get
  let logger := { s.find r.name with level }
  set (s.put r.name logger)
  if !logger.handlers.isEmpty then return logger
  if r.directory.truthy then
    let (path, files) ← openFile s.files r.directory r.file
    let logger : Logger := ⟨level, [.file path, .console]⟩
    set ({ s with files }.put r.name logger)
    return logger
  else
    let logger : Logger := ⟨level, [.console]⟩
    set (s.put r.name logger)
    return logger

/-- A logger that is set up already, or else one that the settings describe. -/
def logger (settings : Settings) (name : Text) : ExceptT Error (StateM State) Logger := do
  let found := (← get).find name
  if !found.handlers.isEmpty then return found
  setup ⟨name, settings.logFile, settings.level, settings.logDir⟩

end ReleaseGate.Logging
