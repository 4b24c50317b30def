import ReleaseGate.Audit.Entry
import ReleaseGate.Json.Read
import ReleaseGate.Text.Blank
import ReleaseGate.Text.Lines

/-!
The text of an audit log: one document a line, blank lines aside. The chain holds when every line is
an entry, every entry has the hash that it claims, and every entry names the one before it, the
first one the genesis hash. Every breach is reported.
-/

namespace ReleaseGate.Audit

/-- The lines that are not blank, without the blanks at their ends. -/
def writtenLines (text : List CodePoint) : List (List CodePoint) :=
  ((Text.lines text).map Text.strip).filter fun l => !l.isEmpty

/-- The document of a line; null counts as none. -/
def document? (line : List CodePoint) : Option Value :=
  match Json.read? line with
  | some .null => none
  | found => found

/-- A breach of the chain, at the index of an entry. The parts of hashes that it shows are cut. -/
inductive Breach where
  | unreadable (index : Nat)
  | missingField (index : Nat) (field : Text)
  | notGenesis (index : Nat) (shown : Text)
  | wrongHash (index : Nat) (stored computed : Text)
  | broken (index : Nat) (shown expected : Text)
  deriving DecidableEq

namespace Breach

def index : Breach → Nat
  | .unreadable i | .missingField i _ | .notGenesis i _ | .wrongHash i _ _ | .broken i _ _ => i

def problem : Breach → Text
  | .unreadable _ => "unparseable line"
  | .missingField _ field => "missing chain field " ++ Text.quoted field
  | .notGenesis _ shown => "prev_hash should be genesis but is " ++ shown
  | .wrongHash _ stored computed =>
      "hash mismatch (stored=" ++ stored ++ ", computed=" ++ computed ++ ")"
  | .broken _ shown expected =>
      "chain break (prev_hash=" ++ shown ++ ", expected=" ++ expected ++ ")"

def text (b : Breach) : Text := "Entry " ++ intText b.index ++ ": " ++ b.problem

end Breach

def shownLength : Nat := 12

/-- The beginning of a stored hash, for a report; a list in its place is cut to as many items. -/
def shown (v : Value) : Except Misfit Text :=
  match v with
  | .str s => .ok (Text.ofList (s.toList.take shownLength))
  | .list items => .ok (Value.list (items.take shownLength)).display
  | _ => .error .wrongType

/-- The entries of numbered lines, and the breaches of the lines that are none. -/
def entriesFrom (index : Nat) : List (List CodePoint) → Except Misfit (List Breach × List Entry)
  | [] => .ok ([], [])
  | l :: ls => do
      match (document? l).map Entry.ofValue with
      | none => do
          let (breaches, entries) ← entriesFrom (index + 1) ls
          return (.unreadable index :: breaches, entries)
      | some (.error (.missingMember field)) => do
          let (breaches, entries) ← entriesFrom (index + 1) ls
          return (.missingField index field :: breaches, entries)
      | some (.error m) => throw m
      | some (.ok e) => do
          let (breaches, entries) ← entriesFrom (index + 1) ls
          return (breaches, e :: entries)

def hashBreach (index : Nat) (e : Entry) : Except Misfit (List Breach) := do
  let computed ← e.computedHash
  if e.entryHash.same (.str computed) then return []
  else
    return [.wrongHash index (← shown e.entryHash)
      (String.ofList (computed.toList.take shownLength))]

def linkBreach (index : Nat) (previous : Value) (e : Entry) : Except Misfit (List Breach) := do
  if e.prevHash.same previous then return []
  else return [.broken index (← shown e.prevHash) (← shown previous)]

/-- The breaches of the entries after the first, where `previous` is the hash before them. -/
def laterBreaches (index : Nat) (previous : Value) : List Entry → Except Misfit (List Breach)
  | [] => .ok []
  | e :: es => do
      let own ← hashBreach index e
      let link ← linkBreach index previous e
      return own ++ link ++ (← laterBreaches (index + 1) e.entryHash es)

def chainBreaches : List Entry → Except Misfit (List Breach)
  | [] => .ok []
  | e :: es => do
      let first ←
        if e.prevHash.same (.str genesisHash) then pure []
        else pure [Breach.notGenesis 0 (← shown e.prevHash)]
      let own ← hashBreach 0 e
      return first ++ own ++ (← laterBreaches 1 e.entryHash es)

/-- The breaches of a log: first those of single lines, then those of the chain that the remaining
entries form. -/
def breaches (text : Text) : Except Misfit (List Breach) := do
  let (unread, entries) ← entriesFrom 0 (writtenLines text.toList)
  return unread ++ (← chainBreaches entries)

/-- The entries of a log; lines that are none are passed over. -/
def entries (text : Text) : Except Misfit (List Entry) := do
  return (← entriesFrom 0 (writtenLines text.toList)).2

inductive TailFault where
  | corrupt
  | misfit (m : Misfit)
  deriving DecidableEq

def lastHash (text : Text) : Except TailFault Value :=
  match (writtenLines text.toList).getLast? with
  | none => .ok (.str genesisHash)
  | some line =>
      match Json.read? line with
      | none => .error .corrupt
      | some v =>
          match v.need entryHashField with
          | .ok hash => .ok hash
          | .error (.missingMember _) => .error .corrupt
          | .error m => .error (.misfit m)

end ReleaseGate.Audit
