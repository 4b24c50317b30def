import ReleaseGate.Audit.Chain
import ReleaseGate.Contract.Plan
import ReleaseGate.Files

/-!
The audit log in a file. Records are checked against their contract before anything is written, and
an append either writes one line or changes nothing. A log without a file is empty.
-/

namespace ReleaseGate.Audit

/-- Makes the file of a log, and the directories above it, where they are missing. -/
def openLog (files : Files) (path : FilePath) : Except Error Files :=
  let made : Except FileFault Files := do
    let files ← files.makeDirectory path.parent
    if ← files.contains path then return files
    else files.write path ""
  made.mapError fun
    | .notEncodable => .file .notEncodable
    | _ => .auditUnopenable path.text

/-- The text of a log, which is empty where there is no file. -/
def logText (files : Files) (path : FilePath) : Except FileFault String := do
  if ← files.contains path then files.read path else return ""

def checkRecord (record : Value) : Except Error Unit :=
  match Contract.auditIssues record with
  | .error m => .error (.misfit m)
  | .ok [] => .ok ()
  | .ok issues => .error (.contractViolation "audit_record" issues)

def writeFault (path : FilePath) : FileFault → Error
  | .notEncodable => .file .notEncodable
  | _ => .auditUnwritable path.text

def append (files : Files) (path : FilePath) (record : Value) : Except Error (Entry × Files) := do
  checkRecord record
  let text ← (logText files path).mapError (writeFault path)
  let prevHash ←
    match lastHash text with
    | .ok hash => pure hash
    | .error .corrupt => throw (.auditCorruptTail path.text)
    | .error (.misfit m) => throw (.misfit m)
  let entry ← Misfit.lift (Entry.following record.members prevHash)
  let line ← Misfit.lift entry.line
  let files ← (files.append path (line ++ "\n")).mapError (writeFault path)
  return (entry, files)

def verify (files : Files) (path : FilePath) : Except Error (List Breach) := do
  Misfit.lift (breaches (← (logText files path).mapError .file))

def readAll (files : Files) (path : FilePath) : Except Error (List Entry) := do
  Misfit.lift (entries (← (logText files path).mapError .file))

/-- What a search asks of an entry; null and everything else that is not truthy ask nothing. -/
structure Search where
  runId : Value
  requestId : Value
  status : Value
  since : Value
  upTo : Value

namespace Search

def keepSame (name : Text) (wanted : Value) (es : List Entry) : List Entry :=
  if wanted.truthy then es.filter fun e => (e.field name).same wanted else es

/-- Keeps the entries whose time passes a test; an entry without a time has the empty one. -/
def keepTimes (bound : Value) (test : Value → Option Bool) (es : List Entry) :
    Except Misfit (List Entry) :=
  if bound.truthy then
    es.filterM fun e =>
      match test ((e.record.lookup ↑"timestamp").getD (.str "")) with
      | some b => .ok b
      | none => .error .wrongType
  else .ok es

def select (q : Search) (es : List Entry) : Except Misfit (List Entry) := do
  let es := keepSame "run_id" q.runId es
  let es := keepSame "action_request_id" q.requestId es
  let es := keepSame "status" q.status es
  let es ← keepTimes q.since (fun time => q.since.upTo? time) es
  keepTimes q.upTo (fun time => time.upTo? q.upTo) es

end Search

def query (files : Files) (path : FilePath) (q : Search) : Except Error (List Entry) := do
  Misfit.lift (q.select (← readAll files path))

end ReleaseGate.Audit
