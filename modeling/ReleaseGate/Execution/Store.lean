import ReleaseGate.Files

/-!
Stores of claimed request ids. Claiming an id succeeds once: the first claim of an id takes it, and
every later one finds it taken. Ids are kept in memory or as marker files of a directory; a fixed
store gives one answer to every claim.
-/

namespace ReleaseGate

inductive Store where
  | memory (claimed : List Value)
  | directory (path : FilePath)
  | fixed (answer : Value)
  deriving DecidableEq

namespace Store

def empty : Store := .memory []

def openDirectory (files : Files) (path : FilePath) : Except Error (Store × Files) := do
  return (.directory path, ← (files.makeDirectory path).mapError .file)

def isMarkerChar : CodePoint → Bool
  | .char c => c.isAlphanum || c == '_' || c == '.' || c == '-'
  | .surrogate _ => false

/-- The name of an id's marker; what may not stand in a name becomes an underscore. -/
def markerName (id : Text) : Text :=
  Text.ofList (id.toList.map fun c => if isMarkerChar c then c else '_') ++ ".claimed"

def marker (path : FilePath) (id : Value) : Except Error FilePath :=
  match id with
  | .str s => .ok (path ++ [markerName s])
  | _ => .error (.misfit .wrongType)

/-- Whether an id is among the claimed ones; a container cannot be one. -/
def isClaimed (claimed : List Value) (id : Value) : Except Error Bool :=
  if id.hashable then .ok (claimed.any fun other => other.same id) else .error (.misfit .wrongType)

def has (s : Store) (files : Files) (id : Value) : Except Error Bool :=
  match s with
  | .memory claimed => isClaimed claimed id
  | .directory path => do (files.contains (← marker path id)).mapError .file
  | .fixed _ => .error (.misfit .notAnObject)

/-- Makes the marker of an id, which holds the id. The marker of a text that is no string is made as
well, and stays empty. -/
def mark (files : Files) (place : FilePath) (id : Text) : Except Error Bool × Files :=
  match files.createNew place (id.string?.getD "") with
  | .ok made => (Misfit.lift (id.encoded.map fun _ => true), made)
  | .error .alreadyExists => (.ok false, files)
  | .error fault => (.error (.file fault), files)

/-- Takes an id if it is still free, and says whether it was. -/
def claim (s : Store) (files : Files) (id : Value) : Except Error Bool × Store × Files :=
  match s with
  | .memory claimed =>
      match isClaimed claimed id with
      | .ok false => (.ok true, .memory (claimed ++ [id]), files)
      | answer => (answer.map (!·), s, files)
  | .directory path =>
      match marker path id with
      | .ok place =>
          let (answer, files) := mark files place id.display
          (answer, s, files)
      | .error e => (.error e, s, files)
  | .fixed answer => (.ok answer.truthy, s, files)

/-- Marks an id as claimed, whether or not it was free. -/
def add (s : Store) (files : Files) (id : Value) : Except Error Unit × Store × Files :=
  match s with
  | .fixed _ => (.error (.misfit .notAnObject), s, files)
  | _ =>
      let (answer, after) := s.claim files id
      (answer.map fun _ => (), after)

def size (s : Store) : Except Error Nat :=
  match s with
  | .memory claimed => .ok claimed.length
  | _ => .error (.misfit .wrongType)

end Store

end ReleaseGate
