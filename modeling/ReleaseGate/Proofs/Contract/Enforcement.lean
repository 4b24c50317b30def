import ReleaseGate.Enforcement
import ReleaseGate.Proofs.Steps

/-!
What the enforcement of contracts answers, over any calls on one log. A call returns its document or
refuses it with every issue, and the log grows by exactly the refusals. The contract of audit
records alone has documents that it can do neither with, those whose status has no place in a set.
-/

namespace ReleaseGate.Contract.Enforced

inductive Answered (log : List Violation) (c : Enforced) (doc : Value) :
    Except Error Value → List Violation → Prop
  | returned (clean : c.issues doc = .ok []) : Answered log c doc (.ok doc) log
  | refused {i : Issue} {is : List Issue} (found : c.issues doc = .ok (i :: is)) :
      Answered log c doc (.error (.contractViolation c.name (i :: is)))
        (log ++ [⟨c.name, i :: is⟩])
  | misplaced (stops : c.issues doc = .error .wrongType) (record : c = .auditRecord)
      {status : Value} (given : doc.member? "status" = some status)
      (container : status.hashable = false) :
      Answered log c doc (.error (.misfit .wrongType)) log

/-- Answers to calls one after another, each on the log that the one before it left. -/
inductive AllAnswered : List Violation → List (Enforced × Value) → List (Except Error Value) →
    List Violation → Prop
  | nil (log : List Violation) : AllAnswered log [] [] log
  | cons {log next last : List Violation} {c : Enforced} {doc : Value} {answer : Except Error Value}
      {calls : List (Enforced × Value)} {answers : List (Except Error Value)}
      (first : Answered log c doc answer next) (rest : AllAnswered next calls answers last) :
      AllAnswered log ((c, doc) :: calls) (answer :: answers) last

/-- The one contract that raises is the audit record's, for a status that cannot be looked up. -/
theorem misplaced_of_issues {c : Enforced} {doc : Value} {m : Misfit}
    (h : c.issues doc = .error m) :
    m = .wrongType ∧ c = .auditRecord ∧
      ∃ status, doc.member? "status" = some status ∧ status.hashable = false := by
  cases c with
  | auditRecord =>
      simp only [issues, auditIssues] at h
      split at h
      · cases h
      · split at h
        · rename_i container
          cases given : doc.member? "status" with
          | none => rw [given] at container; cases container
          | some status =>
              rw [given] at container
              exact ⟨(Except.error.inj h).symm, rfl, status, rfl, by simpa using container⟩
        · cases h
  | policy | verdict | plan => cases h

theorem note_misfit {α : Type} (log : List Violation) (m : Misfit) :
    Violation.note log (.error (.misfit m) : Except Error α) = log :=
  List.append_nil log

/-- An answer adds to the violations noted before and never rewrites them. -/
theorem note_append {α : Type} (log : List Violation) (answer : Except Error α) :
    Violation.note log answer = log ++ Violation.note [] answer := by
  cases answer with
  | ok _ => exact (List.append_nil log).symm
  | error e => rfl

theorem enforce_answered (log : List Violation) (c : Enforced) (doc : Value) :
    Answered log c doc (c.enforce log doc).1 (c.enforce log doc).2 := by
  rw [enforce, check]
  cases found : c.issues doc with
  | error m =>
      obtain ⟨rfl, record, status, given, container⟩ := misplaced_of_issues found
      show Answered log c doc (.error (.misfit .wrongType))
        (Violation.note log (.error (.misfit .wrongType) : Except Error Value))
      rw [note_misfit]
      exact .misplaced found record given container
  | ok is =>
      cases is with
      | nil => exact .returned found
      | cons i is => exact .refused found

/-- Whatever the calls and the log before them, each call returns the document itself and leaves the
log, exactly where its contract finds nothing, or is refused with every issue and adds that refusal
to the log; only an audit record with a list or an object for its status ends otherwise, and then
the log is left too. The log holds the refusals, in order. -/
theorem calls_answered (log : List Violation) (calls : List (Enforced × Value)) :
    AllAnswered log calls (enforceAll log calls).1 (enforceAll log calls).2 ∧
    (enforceAll log calls).2 = log ++ (enforceAll log calls).1.flatMap (Violation.note []) := by
  induction calls generalizing log with
  | nil => exact ⟨.nil log, (List.append_nil log).symm⟩
  | cons call calls ih =>
      obtain ⟨c, doc⟩ := call
      obtain ⟨rest, grown⟩ := ih (c.enforce log doc).2
      have next : (c.enforce log doc).2 = log ++ Violation.note [] (c.enforce log doc).1 :=
        note_append log _
      refine ⟨.cons (enforce_answered log c doc) rest, ?_⟩
      rw [enforceAll, grown, List.flatMap_cons, ← List.append_assoc, ← next]

def listedStatus : Value :=
  .object [("schema_version", .str auditSchema), ("timestamp", .str "t"),
    ("action_request_id", .str "AR-0"), ("run_id", .str "r"),
    ("verdict_hash", .str (Text.ofList (List.replicate 64 'b'))),
    ("proposed_action", .str "HOLD_FOR_HUMAN"), ("final_action", .str "HOLD_FOR_HUMAN"),
    ("confidence", .int 0), ("learning_mode", .bool false), ("approved_for_execution", .bool false),
    ("status", .list []), ("dry_run", .bool false), ("status_transitions", .list []),
    ("adapter_results", .list [])]

/-- The check of such a record neither returns it nor refuses it. -/
theorem listedStatus_unanswered :
    enforce [] .auditRecord listedStatus = (.error (.misfit .wrongType), []) ∧
    (enforce [] .auditRecord listedStatus).1 ≠ .ok listedStatus ∧
    ∀ issues, (enforce [] .auditRecord listedStatus).1 ≠
      .error (.contractViolation (name .auditRecord) issues) := by
  have stops : enforce [] .auditRecord listedStatus = (.error (.misfit .wrongType), []) := rfl
  rw [stops]
  exact ⟨rfl, nofun, nofun⟩

end ReleaseGate.Contract.Enforced
