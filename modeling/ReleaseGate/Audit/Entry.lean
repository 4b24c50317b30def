import ReleaseGate.Digest.Sha256
import ReleaseGate.Json.Write
import ReleaseGate.Value.Access

/-!
Entries of the audit log. An entry is a record together with the hash of the entry before it and a
hash of its own, which covers both the record and the previous hash. The first entry follows the
genesis hash.
-/

namespace ReleaseGate.Audit

def genesisHash : String := String.ofList (List.replicate 64 '0')

def prevHashField : Text := "prev_hash"

def entryHashField : Text := "entry_hash"

/-- An entry as it stands in a log, whatever its hashes hold. -/
structure Entry where
  record : List (Text × Value)
  prevHash : Value
  entryHash : Value
  deriving DecidableEq

/-- The hash of a record that follows the entry with a given hash. -/
def hashOf (record : List (Text × Value)) (prevHash : Value) : Except Misfit String :=
  (Json.lineText (.object (putMember prevHashField prevHash record))).encoded.map Digest.sha256

namespace Entry

def following (record : List (Text × Value)) (prevHash : Value) : Except Misfit Entry :=
  (hashOf record prevHash).map fun (hash : String) => ⟨record, prevHash, .str hash⟩

def computedHash (e : Entry) : Except Misfit String := hashOf e.record e.prevHash

def toValue (e : Entry) : Value :=
  .object (putMember entryHashField e.entryHash (putMember prevHashField e.prevHash e.record))

def line (e : Entry) : Except Misfit String := (Json.lineText e.toValue).encoded

/-- The entry of a document; the two hashes are set apart from the record. -/
def ofValue (v : Value) : Except Misfit Entry := do
  match v with
  | .object members => do
      let record := members.filter fun m => m.1 ≠ prevHashField ∧ m.1 ≠ entryHashField
      let prevHash ← v.need prevHashField
      let entryHash ← v.need entryHashField
      return ⟨record, prevHash, entryHash⟩
  | _ => throw .notAnObject

/-- What the record says under a name; null where it says nothing. -/
def field (e : Entry) (name : Text) : Value := (e.record.lookup name).getD .null

end Entry

end ReleaseGate.Audit
