import ReleaseGate.Proofs.Plan.Gate

/-!
The history of a plan: a path along the edges of the state machine, from the first status to the
last. Moving a plan takes the path one step further and keeps the plan valid.
-/

namespace ReleaseGate

/-- Transitions that lead from one status to another, each along an edge and from where the one
before it ends. -/
def PlanStatus.Leads : PlanStatus → List Transition → PlanStatus → Prop
  | s, [], t => s = t
  | s, m :: ms, t => m.old = s ∧ s.mayBecome m.new = true ∧ Leads m.new ms t

theorem PlanStatus.Leads.append {s t u : PlanStatus} {ms ns : List Transition}
    (h : s.Leads ms t) (hn : t.Leads ns u) : s.Leads (ms ++ ns) u := by
  induction ms generalizing s with
  | nil =>
      cases h
      exact hn
  | cons m ms ih => exact ⟨h.1, h.2.1, ih h.2.2⟩

/-- Each transition of a path is along an edge. -/
theorem PlanStatus.Leads.edges {s t : PlanStatus} {ms : List Transition} (h : s.Leads ms t) :
    ∀ m ∈ ms, m.old.mayBecome m.new = true := by
  induction ms generalizing s with
  | nil => exact List.forall_mem_nil _
  | cons m ms ih => exact List.forall_mem_cons.2 ⟨h.1.symm ▸ h.2.1, ih h.2.2⟩

namespace PlanStatus

def chances : PlanStatus → Nat
  | .proposed | .approved => 1
  | .executed | .verified | .failed => 0

def executions (ms : List Transition) : Nat := ms.countP fun m => m.new = .executed

/-- No step adds to the executions still possible, and one to execution uses one up. -/
theorem chances_edge {s t : PlanStatus} (may : s.mayBecome t = true) :
    (if t = .executed then 1 else 0) + t.chances ≤ s.chances := by
  revert may
  cases s <;> cases t <;> decide

/-- An execution uses up the one chance, and no edge leads back to where there is one. -/
theorem Leads.executions_add_chances_le {s t : PlanStatus} {ms : List Transition}
    (h : s.Leads ms t) : executions ms + t.chances ≤ s.chances := by
  induction ms generalizing s with
  | nil =>
      cases h
      simp [executions]
  | cons m ms ih =>
      have edge := chances_edge h.2.1
      have rest := ih h.2.2
      simp only [executions, List.countP_cons, decide_eq_true_eq] at rest ⊢
      omega

end PlanStatus

namespace Plan

/-- A plan whose history leads from the beginning to its status. -/
def Walked (p : Plan) : Prop := PlanStatus.Leads .proposed p.history p.status

structure Attempt where
  status : PlanStatus
  timestamp : Value
  reason : Value

def moved (p : Plan) (a : Attempt) : Plan :=
  { p with
    status := a.status
    history := p.history ++ [⟨p.status, a.status, a.timestamp, a.reason⟩] }

theorem moved_walked {p : Plan} {a : Attempt} (h : p.Walked)
    (may : p.status.mayBecome a.status = true) : (p.moved a).Walked :=
  h.append ⟨rfl, may, rfl⟩

def step (p : Plan) (status : PlanStatus) (timestamp reason : Text) : Plan :=
  { p with status, history := p.history ++ [⟨p.status, status, .str timestamp, .str reason⟩] }

variable {p : Plan} {status : PlanStatus} {timestamp reason : Text}

theorem transitionTo_eq (may : p.status.mayBecome status = true) :
    p.transitionTo status (.str timestamp) (.str reason) = .ok (p.step status timestamp reason) :=
  if_pos may

theorem step_walked (h : p.Walked) (may : p.status.mayBecome status = true) :
    (p.step status timestamp reason).Walked :=
  moved_walked (a := ⟨status, .str timestamp, .str reason⟩) h may

theorem step_valid (h : p.Valid) (time : Text.isBlankText timestamp = false)
    (full : Text.isBlankText reason = false) : (p.step status timestamp reason).Valid where
  requestId := h.requestId
  runId := h.runId
  proposed := h.proposed
  final := h.final
  confidence := h.confidence
  learning := h.learning
  approved := h.approved
  history := List.forall_mem_append.2
    ⟨h.history, List.forall_mem_singleton.2 ⟨⟨_, rfl, time⟩, ⟨_, rfl, full⟩⟩⟩
  last := by
    intro t ht
    simp only [step, List.getLast?_append, List.getLast?_singleton, Option.some_or,
      Option.mem_some_iff] at ht
    rw [← ht]
    rfl

theorem opened_walked (id : String) (verdict : Value) (d : Decision) (timestamp : Text) :
    (opened id verdict d timestamp).Walked := by
  refine ⟨rfl, ?_, rfl⟩
  show PlanStatus.mayBecome .proposed d.status = true
  unfold Decision.status
  cases d.approved <;> rfl

end Plan

end ReleaseGate
