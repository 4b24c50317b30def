import ReleaseGate.Proofs.Plan.Path

/-!
Plans under any attempts to move them. An attempt takes a plan one edge further or leaves it as it
is, so that a plan which the gate opens, or which has no history yet, keeps a history that is a
path.
-/

namespace ReleaseGate.Plan

/-- The plan after an attempt; one that is refused changes nothing. -/
def attempt (p : Plan) (a : Attempt) : Plan :=
  match p.transitionTo a.status a.timestamp a.reason with
  | .ok q => q
  | .error _ => p

def after (p : Plan) (as : List Attempt) : Plan := as.foldl attempt p

/-- A plan at its beginning: without a history yet, or as the gate opens it. -/
def Begins (p : Plan) : Prop :=
  p.status = .proposed ∧ p.history = [] ∨
    ∃ verdict threshold clock clock', (ofVerdict verdict threshold).run clock = (.ok p, clock')

theorem propose_new {verdict threshold : Value} {p : Plan} {d : Decision}
    (h : propose verdict threshold = .ok (p, d)) : p.status = .proposed ∧ p.history = [] := by
  unfold propose at h
  iterate 10 obtain ⟨_, -, h⟩ := bind_eq_ok h
  cases h
  exact ⟨rfl, rfl⟩

/-- The gate opens a plan by its first transition. -/
theorem ofVerdict_moved {verdict threshold : Value} {clock clock' : Clock} {p : Plan}
    (h : (ofVerdict verdict threshold).run clock = (.ok p, clock')) :
    ∃ (q : Plan) (a : Attempt), q.status = .proposed ∧ q.history = [] ∧
      q.transitionTo a.status a.timestamp a.reason = .ok p := by
  unfold ofVerdict at h
  obtain ⟨_, _, -, h⟩ := run_bind_eq_ok h
  obtain ⟨_, _, -, h⟩ := run_bind_eq_ok h
  obtain ⟨⟨q, d⟩, _, proposed, h⟩ := run_bind_eq_ok h
  obtain ⟨_, _, -, h⟩ := run_bind_eq_ok h
  obtain ⟨_, _, moved, h⟩ := run_bind_eq_ok h
  obtain ⟨_, _, -, h⟩ := run_bind_eq_ok h
  cases h
  obtain ⟨status, history⟩ := propose_new (mapError_eq_ok.1 (Prod.mk.inj proposed).1)
  exact ⟨q, ⟨_, _, _⟩, status, history, (Prod.mk.inj moved).1⟩

section

variable {p q : Plan} {a : Attempt}

theorem transitionTo_moved : p.transitionTo a.status a.timestamp a.reason =
    if p.status.mayBecome a.status then .ok (p.moved a)
    else .error (.invalidTransition p.status a.status) := rfl

theorem attempt_eq (p : Plan) (a : Attempt) :
    p.attempt a = if p.status.mayBecome a.status then p.moved a else p := by
  rw [attempt, transitionTo_moved]
  cases p.status.mayBecome a.status <;> rfl

/-- An attempt, allowed or not, keeps a plan's history a walk and only adds to it. -/
theorem attempt_walked (h : p.Walked) (a : Attempt) :
    (p.attempt a).Walked ∧ p.history <+: (p.attempt a).history := by
  rw [attempt_eq]
  split
  · rename_i may
    exact ⟨moved_walked h may, List.prefix_append _ _⟩
  · exact ⟨h, List.prefix_rfl⟩

theorem Begins.walked (h : p.Begins) : p.Walked := by
  obtain ⟨status, history⟩ | ⟨verdict, threshold, clock, clock', ran⟩ := h
  · rw [Walked, status, history]
    rfl
  · obtain ⟨q, a, status, history, opened⟩ := ofVerdict_moved ran
    have new : q.Walked := by
      rw [Walked, status, history]
      rfl
    have taken : q.attempt a = p := by
      rw [attempt, opened]
    exact taken ▸ (attempt_walked new a).1

end

theorem after_append (p : Plan) (as bs : List Attempt) :
    p.after (as ++ bs) = (p.after as).after bs :=
  List.foldl_append ..

/-- Whatever is attempted, the history stays a walk and only grows. -/
theorem after_walked {p : Plan} (h : p.Walked) (as : List Attempt) :
    (p.after as).Walked ∧ p.history <+: (p.after as).history := by
  induction as generalizing p with
  | nil => exact ⟨h, List.prefix_rfl⟩
  | cons a as ih =>
      obtain ⟨walked, extends_⟩ := attempt_walked h a
      obtain ⟨rest, further⟩ := ih walked
      exact ⟨rest, extends_.trans further⟩

theorem not_mayBecome_of_isTerminal {s t : PlanStatus} (final : s.isTerminal = true) :
    s.mayBecome t = false := by
  revert final
  cases s <;> cases t <;> decide

/-- A plan that has ended stays as it is. -/
theorem after_of_isTerminal {p : Plan} (final : p.status.isTerminal = true) (as : List Attempt) :
    p.after as = p := by
  induction as with
  | nil => rfl
  | cons a as ih =>
      have refused : p.attempt a = p := by
        rw [attempt_eq, not_mayBecome_of_isTerminal final]
        rfl
      rw [after, List.foldl_cons, refused]
      exact ih

/-- From its beginning on, whatever is attempted, a plan moves by single transitions along the edges
of the state machine and by nothing else; its history is a path from the beginning to where it
stands, enters the execution at most once and then from an approval, and fails only from an
execution. A final plan stays as it is. -/
theorem attempts_legal {p : Plan} (begins : p.Begins) (as : List Attempt) :
    let q := p.after as
    (∀ a, q.transitionTo a.status a.timestamp a.reason =
        (if q.status.mayBecome a.status then .ok (q.moved a)
        else .error (.invalidTransition q.status a.status)) ∧
      p.after (as ++ [a]) = if q.status.mayBecome a.status then q.moved a else q) ∧
    PlanStatus.Leads .proposed q.history q.status ∧ p.history <+: q.history ∧
    PlanStatus.executions q.history ≤ 1 ∧
    (∀ t ∈ q.history, t.new = .executed → t.old = .approved) ∧
    (∀ t ∈ q.history, t.new = .failed → t.old = .executed) ∧
    (q.status.isTerminal = true → (∀ a : Attempt, q.transitionTo a.status a.timestamp a.reason =
        .error (.invalidTransition q.status a.status)) ∧
      ∀ more, p.after (as ++ more) = q) := by
  intro q
  obtain ⟨walked, kept⟩ := after_walked begins.walked as
  have source {s t : PlanStatus} (only : ∀ u, u.mayBecome t = true → u = s) :
      ∀ m ∈ q.history, m.new = t → m.old = s :=
    fun m hm target => only _ (target ▸ walked.edges m hm)
  refine ⟨fun a => ⟨transitionTo_moved, ?_⟩, walked, kept, ?_, source ?_, source ?_, fun final =>
    ⟨fun a => ?_, fun more => ?_⟩⟩
  · rw [after_append]
    exact attempt_eq q a
  · have once := walked.executions_add_chances_le
    exact Nat.le_trans (Nat.le_add_right _ _) once
  · intro u
    cases u <;> decide
  · intro u
    cases u <;> decide
  · rw [transitionTo_moved, not_mayBecome_of_isTerminal final]
    rfl
  · rw [after_append]
    exact after_of_isTerminal final more

/-- A plan that fails on its way: of seven attempts, one jumps ahead and two come too late. -/
theorem attempts_legal_failed :
    let p := drafted "AR-0" Verdict.rollback ⟨.str "KILL_AND_ROLLBACK", true, "rollback"⟩
    let as := [.proposed, .failed, .approved, .executed, .executed, .failed, .verified].map
      fun status => Attempt.mk status (.str "12:00") .null
    p.Begins ∧ (p.after as).status.isTerminal = true ∧
      (p.after as).history.map Transition.new = [.proposed, .approved, .executed, .failed] ∧
      ∀ more, p.after (as ++ more) = p.after as := by
  intro p as
  have begins : p.Begins := Or.inl ⟨rfl, rfl⟩
  have final : (p.after as).status.isTerminal = true := rfl
  obtain ⟨-, -, -, -, -, -, stays⟩ := attempts_legal begins as
  exact ⟨begins, final, rfl, (stays final).2⟩

end ReleaseGate.Plan
