import ReleaseGate.Error
import ReleaseGate.Text.Lines

/-!
The files that the gate reads and writes, as a value: directories and texts by path. Each operation
says which fault stands in its way; an operation that fails changes nothing.
-/

namespace ReleaseGate

/-- The names on the way to a file, outermost first; an absolute path starts with the root's. -/
abbrev FilePath := List Text

namespace FilePath

def rootName : Text := "/"

/-- Empty names and those for the directory itself do not count. -/
def ofText (s : Text) : FilePath :=
  let parts := ((Text.splitAt (· == '/') s.toList).map Text.ofList).filter fun (n : Text) =>
    n != "" && n != "."
  if s.toList.head? = some (.char '/') then rootName :: parts else parts

def text : FilePath → Text
  | [] => "."
  | n :: rest =>
      if n = rootName then rootName ++ Text.intercalate "/" rest
      else Text.intercalate "/" (n :: rest)

def parent (p : FilePath) : FilePath := if p = [rootName] then p else p.dropLast

def above (p : FilePath) : List FilePath :=
  (List.range (p.length - 1)).map fun n => p.take (n + 1)

/-- The end of the last name, from its last point; a name has none if that point is its first or its
last character. -/
def suffix (p : FilePath) : Text :=
  let name := (p.getLast?.getD "").toList
  let tail := name.reverse.takeWhile (· != CodePoint.char '.')
  if tail.isEmpty || name.length ≤ tail.length + 1 then ""
  else Text.ofList ('.' :: tail.reverse)

/-- How many bytes a name stands for. The surrogates from U+DC80 to U+DCFF stand for a byte each,
and the others for nothing. -/
def nameSize? : Text → Option Nat
  | .plain s => some s.utf8ByteSize
  | .lone s u rest =>
      if 0x480 ≤ u ∧ u < 0x500 then (nameSize? rest).map (s.utf8ByteSize + 1 + ·) else none

def isEncodable (p : FilePath) : Bool := p.all fun n => (nameSize? n).isSome

def namesFit (p : FilePath) : Bool := p.all fun n => (nameSize? n).any (· ≤ 255)

end FilePath

inductive FileEntry where
  | directory
  | file (content : String)
  deriving DecidableEq

structure Files where
  entries : List (FilePath × FileEntry)
  deriving DecidableEq

namespace Files

def empty : Files := ⟨[]⟩

/-- What stands at a path; the working directory and the root are always there. -/
def lookup (f : Files) (p : FilePath) : Option FileEntry :=
  if p = [] ∨ p = [FilePath.rootName] then some .directory else f.entries.lookup p

def isFile (f : Files) (p : FilePath) : Bool :=
  match f.lookup p with
  | some (.file _) => true
  | _ => false

def access (f : Files) (p : FilePath) : Except FileFault (Option FileEntry) :=
  if !p.isEncodable then .error .notEncodable
  else if p.above.any f.isFile then .error .notADirectory
  else if !p.namesFit then .error .nameTooLong
  else .ok (f.lookup p)

def put (f : Files) (p : FilePath) (e : FileEntry) : Files :=
  ⟨(p, e) :: f.entries.filter fun x => x.1 != p⟩

/-- Whether something stands at a path; a file on the way means that nothing does, and so does a
name without bytes. -/
def contains (f : Files) (p : FilePath) : Except FileFault Bool :=
  match f.access p with
  | .ok found => .ok found.isSome
  | .error .notADirectory | .error .notEncodable => .ok false
  | .error fault => .error fault

/-- Makes a directory and those above it; one that is already there will do. -/
def makeDirectory (f : Files) (p : FilePath) : Except FileFault Files := do
  match ← f.access p with
  | some .directory => return f
  | some (.file _) => throw .alreadyExists
  | none =>
      return (p.above ++ [p]).foldl
        (fun f q => if (f.lookup q).isNone then f.put q .directory else f) f

def read (f : Files) (p : FilePath) : Except FileFault String := do
  match ← f.access p with
  | some (.file content) => return content
  | some .directory => throw .isADirectory
  | none => throw .notFound

def write (f : Files) (p : FilePath) (content : String) : Except FileFault Files := do
  match ← f.access p with
  | some .directory => throw .isADirectory
  | some (.file _) => return f.put p (.file content)
  | none =>
      match f.lookup p.parent with
      | some .directory => return f.put p (.file content)
      | _ => throw .notFound

def append (f : Files) (p : FilePath) (content : String) : Except FileFault Files := do
  match ← f.access p with
  | some (.file old) => f.write p (old ++ content)
  | _ => f.write p content

/-- Makes a file that must not be there yet. -/
def createNew (f : Files) (p : FilePath) (content : String) : Except FileFault Files := do
  match ← f.access p with
  | some _ => throw .alreadyExists
  | none => f.write p content

def remove (f : Files) (p : FilePath) : Except FileFault Files := do
  match ← f.access p with
  | some (.file _) => return ⟨f.entries.filter fun x => x.1 != p⟩
  | some .directory => throw .isADirectory
  | none => throw .notFound

def list (f : Files) (p : FilePath) : Except FileFault (List (Text × String)) := do
  match ← f.access p with
  | some .directory =>
      let found := f.entries.filterMap fun e =>
        match e with
        | (q, .file content) =>
            if q.length = p.length + 1 ∧ q.parent = p then some (q.getLast?.getD "", content)
            else none
        | _ => none
      return sortBy (fun a b => a.1 < b.1) found
  | some (.file _) => throw .notADirectory
  | none => throw .notFound

end Files

end ReleaseGate
