import ReleaseGate.Proofs.Execution.Endings
import ReleaseGate.Proofs.Plan.Path

/-!
The texts that go into the record of an outcome. The record has bytes if the verdict has, and if
neither the clock nor an adapter comes up with half a surrogate pair.
-/

namespace ReleaseGate

open Value (isEncodable_object isEncodable_list)

def Clock.Encodable (c : Clock) : Prop := ∀ n, (c.reading n).isString = true

theorem Clock.Encodable.tick {c : Clock} (h : c.Encodable) : c.tick.2.Encodable := h

theorem AdapterResult.toValue_isEncodable (r : AdapterResult) :
    r.toValue.isEncodable =
      (r.adapter.isString && r.timestamp.isString && r.message.all Text.isString) := by
  have status : r.status.name.isString = true := by cases r.status <;> rfl
  rw [toValue, isEncodable_object]
  cases message : r.message <;> simp [status, Bool.and_assoc]

/-- An adapter whose results are written in strings, and that leaves a clock as it was. -/
def Adapter.Encodable (a : Adapter) : Prop :=
  ∀ action request (c : Clock), c.Encodable →
    (a.run action request c).1.toValue.isEncodable = true ∧ (a.run action request c).2.Encodable

namespace Plan

def Encodable (p : Plan) : Prop := (Value.object p.members).isEncodable = true

variable {p : Plan} {status : PlanStatus} {timestamp reason : Text}

theorem status_isString (s : PlanStatus) : s.name.isString = true := by cases s <;> rfl

theorem transition_isEncodable (old new : PlanStatus) (timestamp reason : Text) :
    (Transition.toValue ⟨old, new, .str timestamp, .str reason⟩).isEncodable =
      (timestamp.isString && reason.isString) := by
  rw [Transition.toValue, isEncodable_object]
  simp [status_isString]

theorem Encodable.requestId (h : p.Encodable) : p.requestId.isEncodable = true := by
  rw [Encodable, isEncodable_object] at h
  exact (Bool.and_eq_true_iff.1 (List.all_eq_true.1 h _ List.mem_cons_self)).2

/-- A transition keeps a plan free of lone surrogates if its time and reason are. -/
theorem step_encodable (h : p.Encodable) (time : timestamp.isString = true)
    (full : reason.isString = true) : (p.step status timestamp reason).Encodable := by
  have added := transition_isEncodable p.status status timestamp reason
  simp only [Encodable, members, isEncodable_object, List.all_cons, isEncodable_list, step,
    List.map_append, List.all_append, List.map_singleton, List.all_nil, added, time, full,
    Bool.and_true, Bool.and_eq_true] at h ⊢
  exact ⟨h.1, h.2.1, h.2.2.1, h.2.2.2.1, h.2.2.2.2.1, h.2.2.2.2.2.1, h.2.2.2.2.2.2.1,
    ⟨rfl, status_isString status⟩, h.2.2.2.2.2.2.2.2⟩

/-- A plan drawn up for an encodable verdict at an encodable time is encodable. -/
theorem opened_encodable {verdict threshold : Value} {d : Decision}
    (encodable : verdict.isEncodable = true) (sound : d.Sound verdict threshold) (id : String)
    (time : timestamp.isString = true) : (opened id verdict d timestamp).Encodable := by
  have part (key name : Text) := Verdict.entry_isEncodable encodable key name
  have first := transition_isEncodable .proposed d.status timestamp d.reason
  have final := Verdict.factoryAction_isEncodable sound.final
  rw [Encodable, isEncodable_object]
  simp [members, opened, drafted, Verdict.runIdOf, Verdict.proposedOf, Verdict.confidenceOf,
    Verdict.learningModeOf, part, final, first, time, sound.reason.2, status_isString,
    isEncodable_list]

end Plan

namespace Execution

theorem skipped_isEncodable {requestId : Value} (id : requestId.NonBlank)
    (h : requestId.isEncodable = true) {timestamp : Text} (time : timestamp.isString = true) :
    (skipped requestId timestamp).toValue.isEncodable = true := by
  obtain ⟨s, rfl, -⟩ := id
  have text : s.isString = true := h
  simp [AdapterResult.toValue_isEncodable, skipped, time, Value.display, text]

theorem conclusion_isString {results : List AdapterResult}
    (h : ∀ r ∈ results, r.toValue.isEncodable = true) : (conclusion results).2.isString = true := by
  unfold conclusion
  split
  · rename_i r found
    have own := h r (List.mem_of_find?_eq_some found)
    rw [AdapterResult.toValue_isEncodable, Bool.and_eq_true, Bool.and_eq_true] at own
    obtain ⟨⟨adapter, -⟩, message⟩ := own
    cases given : r.message with
    | none => simp [adapter]
    | some m =>
        rw [given] at message
        have text : m.isString = true := message
        simp only [Option.getD_some, Text.isString_append, adapter]
        split <;> simp [text]
  · rfl

/-- Encodable answers give encodable results. -/
theorem runAdapters_encodable (action : Value) (request : Request) (position : Nat)
    {adapters : List Adapter} (encodable : ∀ a ∈ adapters, a.Encodable) {w : World}
    (clock : w.clock.Encodable) :
    (∀ r ∈ (runAdapters action request position adapters w).1, r.toValue.isEncodable = true) ∧
      (runAdapters action request position adapters w).2.clock.Encodable := by
  induction adapters generalizing position w with
  | nil => exact ⟨List.forall_mem_nil _, clock⟩
  | cons a rest ih =>
      obtain ⟨first, others⟩ := List.forall_mem_cons.1 encodable
      obtain ⟨own, after⟩ := first action request w.clock clock
      rw [runAdapters_cons]
      dsimp only
      split
      · exact ⟨List.forall_mem_singleton.2 own, after⟩
      · obtain ⟨later, last⟩ := ih (position + 1) others (w := { w with
          clock := (a.run action request w.clock).2
          invoked := w.invoked ++ noted a ⟨position, action, request.requestId⟩ }) after
        exact ⟨List.forall_mem_cons.2 ⟨own, later⟩, last⟩

/-- The record of an encodable plan with encodable results is encodable. -/
theorem auditRecord_encodable {p : Plan} (h : p.Encodable) (hash : String) {timestamp : Text}
    (time : timestamp.isString = true) {results : List AdapterResult}
    (settled : ∀ r ∈ results, r.toValue.isEncodable = true) {dryRun : Value}
    (dry : ∃ b, dryRun = .bool b) :
    (auditRecord p hash results dryRun timestamp).isEncodable = true := by
  have all : (Value.list (results.map AdapterResult.toValue)).isEncodable = true := by
    rw [isEncodable_list, List.all_map, List.all_eq_true]
    exact settled
  obtain ⟨b, rfl⟩ := dry
  have own : (p.members.all fun m => m.1.isString && m.2.isEncodable) = true := by
    rw [← isEncodable_object]
    exact h
  rw [auditRecord, isEncodable_object, List.all_append, own]
  simp [all, time, Contract.auditSchema]

/-- One result with half a surrogate pair is enough to leave a record without bytes. -/
theorem auditRecord_unencodable (p : Plan) (hash : String) (timestamp : Text)
    {results : List AdapterResult} (half : ∃ r ∈ results, r.toValue.isEncodable = false)
    (dryRun : Value) : (auditRecord p hash results dryRun timestamp).isEncodable = false := by
  obtain ⟨r, member, half⟩ := half
  rw [← Bool.not_eq_true]
  intro whole
  have listed : (auditRecord p hash results dryRun timestamp).member? "adapter_results" =
      some (.list (results.map AdapterResult.toValue)) := rfl
  have all := Value.member_isEncodable whole listed
  rw [isEncodable_list, List.all_map, List.all_eq_true] at all
  have own : r.toValue.isEncodable = true := all r member
  rw [half] at own
  cases own

end Execution

end ReleaseGate
