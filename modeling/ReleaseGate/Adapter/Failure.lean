import ReleaseGate.Adapter.Reply
import ReleaseGate.Value.Compare
import ReleaseGate.Value.Spelling

/-!
The text of a failure that an adapter raises with some arguments. One argument stands for itself,
several are listed in brackets, and a missing key is quoted. A failure of the operating system, a
timeout among them, reads two to five arguments as a number, a description and the files that it is
about; a general one takes its kind from the number.
-/

namespace ReleaseGate.Failure

/-- The kind of the failures of the operating system that have no kind of their own. -/
def systemKind : String := "OSError"

def blockedKind : String := "BlockingIOError"

def numberedKinds : List (Int × String) :=
  [(1, "PermissionError"), (2, "FileNotFoundError"), (3, "ProcessLookupError"),
   (4, "InterruptedError"), (10, "ChildProcessError"), (11, blockedKind),
   (13, "PermissionError"), (17, "FileExistsError"), (20, "NotADirectoryError"),
   (21, "IsADirectoryError"), (32, "BrokenPipeError"), (103, "ConnectionAbortedError"),
   (104, "ConnectionResetError"), (108, "BrokenPipeError"), (110, timeoutKind),
   (111, "ConnectionRefusedError"), (114, blockedKind), (115, blockedKind)]

/-- The kind that a number gives; what is no integer gives none. -/
def kindOfNumber (number : Value) : String :=
  let ofInt (i : Int) := (numberedKinds.lookup i).getD systemKind
  match number with
  | .int i => ofInt i
  | .bool b => ofInt (if b then 1 else 0)
  | _ => systemKind

def listed : List Value → Text
  | [] => ""
  | [v] => v.display
  | vs => "(" ++ String.intercalate ", " (vs.map Value.spell) ++ ")"

/-- The files that a system failure is about: one, or one and, two arguments later, another. -/
def filesText : List Value → String
  | [] | .null :: _ => ""
  | [file, _, other] =>
      ": " ++ file.spell ++ if other = .null then "" else " -> " ++ other.spell
  | file :: _ => ": " ++ file.spell

/-- The failure of the operating system with a number, a description and further arguments. A
failure to go on without waiting may tell, in place of the files, how much was done; that must fit a
word. -/
def ofSystem (kind : String) (number description : Value) (rest : List Value) : Failure :=
  let kind := if kind = systemKind then kindOfNumber number else kind
  let text := "[Errno " ++ number.display ++ "] " ++ description.display
  match kind == blockedKind, rest with
  | true, .bool _ :: _ => ⟨kind, text⟩
  | true, .int done :: _ =>
      if -(Nat.pow 2 63 : Int) ≤ done ∧ done < (Nat.pow 2 63 : Int) then ⟨kind, text⟩
      else ⟨"ValueError", "cannot fit 'int' into an index-sized integer"⟩
  | true, .float _ :: _ => ⟨"TypeError", "'float' object cannot be interpreted as an integer"⟩
  | _, _ => ⟨kind, text ++ filesText rest⟩

def ofArguments (kind : String) (args : List Value) : Failure :=
  if kind = systemKind ∨ kind = timeoutKind then
    match args with
    | number :: description :: rest =>
        if rest.length ≤ 3 then ofSystem kind number description rest else ⟨kind, listed args⟩
    | _ => ⟨kind, listed args⟩
  else
    match kind, args with
    | "KeyError", [v] => ⟨kind, v.spell⟩
    | _, _ => ⟨kind, listed args⟩

end ReleaseGate.Failure
