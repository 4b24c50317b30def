import ReleaseGate.Proofs.Execution.Authority

/-!
Executions that share a store in memory, in any number and of any kind. The files and the clock of
each are its own and may hold anything, so any of them may fail at any step. A request id that one
of them claims stays claimed, and adapters are used for an id only by the execution that claims it.
-/

namespace ReleaseGate.Execution

/-- An execution that someone asks for, with the files and the clock that it meets. -/
structure Attempt where
  settings : Settings
  options : Options
  verdict : Value
  plan : Plan
  adapters : List Adapter
  files : Files
  clock : Clock

namespace Attempt

def run (a : Attempt) (store : Store) : Except Error Outcome × World :=
  (execute a.settings a.options a.verdict a.plan a.adapters).run ⟨a.files, a.clock, some store, []⟩

def withheld (a : Attempt) : Bool := isWithheld a.plan a.options

end Attempt

/-- An attempt at its turn, with the store as it finds it. -/
structure Turn where
  attempt : Attempt
  before : Store

namespace Turn

def result (t : Turn) : Except Error Outcome := (t.attempt.run t.before).1

def after (t : Turn) : Store := (t.attempt.run t.before).2.store.getD t.before

def invoked (t : Turn) : List Invocation := (t.attempt.run t.before).2.invoked

end Turn

/-- Attempts one after another; each leaves its store to the next, whatever its result. -/
def turns (store : Store) : List Attempt → List Turn
  | [] => []
  | a :: as => ⟨a, store⟩ :: turns (Turn.mk a store).after as

def Claimed (store : Store) (id : Value) : Prop :=
  ∃ claimed, store = .memory claimed ∧ (claimed.any fun other => other.same id) = true

/-- What a turn comes to with some ids claimed: it leaves the store alone and uses no adapter, or
its request is new and it claims it, and uses adapters for no other. -/
inductive Comes (t : Turn) (claimed : List Value) : Prop where
  | idle (after : t.after = .memory claimed) (invoked : t.invoked = [])
      (skips : t.attempt.withheld = false → ∀ o, t.result = .ok o →
        Claimed (.memory claimed) t.attempt.plan.requestId ∧
        (∃ timestamp, o.results = [skipped t.attempt.plan.requestId timestamp]) ∧
        o.plan.status = .verified)
  | claims (goes : t.attempt.withheld = false)
      (new : ¬ Claimed (.memory claimed) t.attempt.plan.requestId)
      (id : t.attempt.plan.requestId.NonBlank)
      (after : t.after = .memory (claimed ++ [t.attempt.plan.requestId]))
      (uses : ∀ i ∈ t.invoked, i.requestId = t.attempt.plan.requestId)

section

variable {a : Attempt} {claimed : List Value}

theorem Turn.idle (quiet : (a.run (.memory claimed)).2.store = some (.memory claimed) ∧
      (a.run (.memory claimed)).2.invoked = []) :
    (Turn.mk a (.memory claimed)).after = .memory claimed ∧
      (Turn.mk a (.memory claimed)).invoked = [] := by
  rw [Turn.after, Turn.invoked, quiet.1]
  exact ⟨rfl, quiet.2⟩

theorem Comes.of_error {e : Error} {w : World} (ran : a.run (.memory claimed) = (.error e, w))
    (quiet : w.store = some (.memory claimed) ∧ w.invoked = []) :
    Comes ⟨a, .memory claimed⟩ claimed := by
  obtain ⟨after, invoked⟩ := Turn.idle (by rw [ran]; exact quiet)
  refine .idle after invoked fun _ o ho => ?_
  rw [Turn.result, ran] at ho
  cases ho

variable {log : FilePath} {w : World} (accepted : accept a.verdict a.plan = .ok ())
  (opens : (logPath a.settings a.options).run ⟨a.files, a.clock, some (.memory claimed), []⟩ =
    (.ok log, w))
  {hash : String} (hashed : Verdict.contentHash a.verdict = .ok hash)
include accepted opens hashed

theorem Comes.of_withheld (held : a.withheld = true) : Comes ⟨a, .memory claimed⟩ claimed := by
  obtain ⟨after, invoked⟩ := Turn.idle (execute_withheld_quiet accepted opens hashed held)
  refine .idle after invoked fun free => ?_
  rw [show a.withheld = false from free] at held
  cases held

theorem Comes.of_taken (goes : a.withheld = false)
    (taken : (claimed.any fun other => other.same a.plan.requestId) = true) :
    Comes ⟨a, .memory claimed⟩ claimed := by
  obtain ⟨after, invoked⟩ := Turn.idle (execute_taken_quiet accepted opens hashed goes rfl taken)
  refine .idle after invoked fun _ o ho => ⟨⟨claimed, rfl, taken⟩, ?_⟩
  have ran : a.run (.memory claimed) = (skip log hash a.options a.plan).run w :=
    execute_taken accepted opens hashed goes rfl taken
  rw [Turn.result, ran] at ho
  exact skip_outcome ho

theorem Comes.of_new (goes : a.withheld = false)
    (new : (claimed.any fun other => other.same a.plan.requestId) = false) :
    Comes ⟨a, .memory claimed⟩ claimed := by
  obtain ⟨used, uses, invoked, store, -⟩ :
      ∃ used, (∀ i ∈ used, i.action = a.plan.finalAction ∧ i.requestId = a.plan.requestId) ∧
        (a.run (.memory claimed)).2.invoked = [] ++ used ∧
        (a.run (.memory claimed)).2.store = some (.memory (claimed ++ [a.plan.requestId])) ∧ _ :=
    execute_claiming_uses accepted opens hashed goes rfl new
  refine .claims goes ?_ (accepted_plan accepted).requestId ?_ fun i hi => ?_
  · rintro ⟨_, ⟨⟩, has⟩
    rw [new] at has
    cases has
  · rw [Turn.after, store]
    rfl
  · rw [Turn.invoked, invoked] at hi
    exact (uses i hi).2

end

/-- One attempt on a shared store does nothing, is told that its id is taken, or claims it. -/
theorem turn_comes (a : Attempt) (claimed : List Value) : Comes ⟨a, .memory claimed⟩ claimed := by
  let w : World := ⟨a.files, a.clock, some (.memory claimed), []⟩
  cases accepted : accept a.verdict a.plan with
  | error e => exact .of_error (w := w) (execute_refused accepted) ⟨rfl, rfl⟩
  | ok u =>
      have quiet := quiet_logPath a.settings a.options w
      rcases opens : (logPath a.settings a.options).run w with ⟨r, w'⟩
      rw [opens] at quiet
      cases r with
      | error e => exact .of_error (execute_unopened accepted opens) quiet
      | ok log =>
          cases hashed : Verdict.contentHash a.verdict with
          | error m => exact .of_error (execute_unhashed accepted opens hashed) quiet
          | ok hash =>
              cases goes : a.withheld with
              | true => exact .of_withheld accepted opens hashed goes
              | false =>
                  cases taken : claimed.any fun other => other.same a.plan.requestId with
                  | true => exact .of_taken accepted opens hashed goes taken
                  | false => exact .of_new accepted opens hashed goes taken

theorem claimed_append {id : Value} (h : id.NonBlank) (claimed : List Value) :
    Claimed (.memory (claimed ++ [id])) id :=
  ⟨_, rfl, by simp [same_refl_of_nonBlank h]⟩

theorem Claimed.append {claimed : List Value} {id : Value} (h : Claimed (.memory claimed) id)
    (more : List Value) : Claimed (.memory (claimed ++ more)) id := by
  obtain ⟨_, ⟨⟩, has⟩ := h
  exact ⟨_, rfl, by rw [List.any_append, has, Bool.true_or]⟩

theorem Comes.after_eq {t : Turn} {claimed : List Value} (h : Comes t claimed) :
    ∃ more, t.after = .memory (claimed ++ more) := by
  cases h with
  | idle after => exact ⟨[], by rw [after, List.append_nil]⟩
  | claims goes new id after => exact ⟨_, after⟩

theorem turns_before (claimed : List Value) (as : List Attempt) :
    ∀ t ∈ turns (.memory claimed) as, ∃ more, t.before = .memory (claimed ++ more) := by
  induction as generalizing claimed with
  | nil => exact List.forall_mem_nil _
  | cons a as ih =>
      obtain ⟨more, after⟩ := (turn_comes a claimed).after_eq
      refine List.forall_mem_cons.2 ⟨⟨[], by rw [List.append_nil]⟩, fun t ht => ?_⟩
      rw [after] at ht
      obtain ⟨later, before⟩ := ih (claimed ++ more) t ht
      exact ⟨more ++ later, by rw [before, List.append_assoc]⟩

/-- Every attempt of a run finds the store in memory, and does to it what one attempt can do. -/
theorem turns_come (claimed : List Value) (as : List Attempt) :
    ∀ t ∈ turns (.memory claimed) as, ∃ now, t.before = .memory now ∧ Comes t now := by
  intro t ht
  obtain ⟨more, before⟩ := turns_before claimed as t ht
  obtain ⟨a, store⟩ := t
  cases before
  exact ⟨_, rfl, turn_comes a _⟩

/-- What is claimed after a turn is claimed before all later ones. -/
theorem turns_pairwise (claimed : List Value) (as : List Attempt) :
    (turns (.memory claimed) as).Pairwise fun x y =>
      ∀ id, Claimed x.after id → Claimed y.before id := by
  induction as generalizing claimed with
  | nil => exact List.Pairwise.nil
  | cons a as ih =>
      obtain ⟨more, after⟩ := (turn_comes a claimed).after_eq
      rw [turns, after]
      refine List.pairwise_cons.2 ⟨fun y hy id claims => ?_, ih _⟩
      obtain ⟨later, before⟩ := turns_before (claimed ++ more) as y hy
      rw [after] at claims
      rw [before]
      exact claims.append later

/-- A turn that uses an adapter does so for its own request, which it claims. -/
theorem Comes.claims_of_invoked {t : Turn} {claimed : List Value} (h : Comes t claimed)
    {i : Invocation} (hi : i ∈ t.invoked) :
    i.requestId = t.attempt.plan.requestId ∧ ¬ Claimed (.memory claimed) i.requestId ∧
      Claimed t.after i.requestId := by
  cases h with
  | idle after invoked =>
      rw [invoked] at hi
      cases hi
  | claims goes new id after uses =>
      rw [uses i hi, after]
      exact ⟨rfl, new, claimed_append id claimed⟩

/-- Of any executions that share a store in memory, at most one uses adapters for a request id, and
it is the one that claims it, whatever comes of it. What is claimed stays so. An execution that goes
ahead and returns leaves its id claimed, and where it found it claimed, it used no adapter and
returns the one result that says so; one that is withheld never claims an id. -/
theorem shared_store_claims_once (claimed : List Value) (attempts : List Attempt) :
    let ts := turns (.memory claimed) attempts
    ts.Pairwise (fun x y => ∀ i ∈ x.invoked, ∀ j ∈ y.invoked, i.requestId ≠ j.requestId) ∧
    ts.Pairwise (fun x y => ∀ id, Claimed x.after id → Claimed y.before id) ∧
    (∀ t ∈ ts, ∀ i ∈ t.invoked, i.requestId = t.attempt.plan.requestId ∧
      ¬ Claimed t.before i.requestId ∧ Claimed t.after i.requestId) ∧
    (∀ t ∈ ts, t.attempt.withheld = false → ∀ o, t.result = .ok o →
      Claimed t.after t.attempt.plan.requestId ∧
      (Claimed t.before t.attempt.plan.requestId → t.invoked = [] ∧
        (∃ timestamp, o.results = [skipped t.attempt.plan.requestId timestamp]) ∧
        o.plan.status = .verified)) ∧
    ∀ t ∈ ts, t.attempt.withheld = true → t.after = t.before := by
  intro ts
  have come : ∀ t ∈ ts, ∃ now, t.before = .memory now ∧ Comes t now := turns_come claimed attempts
  have stay := turns_pairwise claimed attempts
  have uses : ∀ t ∈ ts, ∀ i ∈ t.invoked, i.requestId = t.attempt.plan.requestId ∧
      ¬ Claimed t.before i.requestId ∧ Claimed t.after i.requestId := by
    intro t ht i hi
    obtain ⟨now, before, comes⟩ := come t ht
    rw [before]
    exact comes.claims_of_invoked hi
  refine ⟨stay.imp_of_mem fun hx hy keeps i hi j hj same => ?_, stay, uses, ?_, ?_⟩
  · -- The second of the two would use adapters for what the first one has claimed.
    have alreadyClaimed := keeps _ (uses _ hx i hi).2.2
    rw [same] at alreadyClaimed
    exact (uses _ hy j hj).2.1 alreadyClaimed
  · intro t ht goes o ho
    obtain ⟨now, before, comes⟩ := come t ht
    rw [before]
    cases comes with
    | idle after invoked skips =>
        obtain ⟨taken, outcome⟩ := skips goes o ho
        rw [after]
        exact ⟨taken, fun _ => ⟨invoked, outcome⟩⟩
    | claims goes new id after =>
        rw [after]
        exact ⟨claimed_append id now, fun taken => absurd taken new⟩
  · intro t ht held
    obtain ⟨now, before, comes⟩ := come t ht
    cases comes with
    | idle after => rw [after, before]
    | claims goes =>
        rw [held] at goes
        cases goes

end ReleaseGate.Execution
