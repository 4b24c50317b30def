import ReleaseGate.Adapter.Basic
import ReleaseGate.Proofs.Contract.Audit

/-!
Whatever an adapter answers, the result that is recorded for it is valid: a document that is not is
replaced by a failure that says so. All that this takes is a clock whose readings are not blank, an
adapter that leaves it so, and a kind of adapter that has a name.
-/

namespace ReleaseGate

/-- A clock that never reads blank. -/
def Clock.Proper (c : Clock) : Prop := ∀ n, Text.isBlankText (c.reading n) = false

theorem run_now (c : Clock) :
    (now : ExceptT Error (StateM Clock) Text).run c = (.ok (c.reading c.asked), c.tick.2) := rfl

theorem Clock.Proper.tick {c : Clock} (h : c.Proper) : c.tick.2.Proper := h

def Records (x : StateM Clock AdapterResult) : Prop :=
  ∀ c : Clock, c.Proper → (x c).1.Valid ∧ (x c).2.Proper

namespace Reply

theorem text_nonBlank {v : Value} (h : v.NonBlank) : Text.isBlankText v.text = false := by
  obtain ⟨s, rfl, full⟩ := h
  exact full

/-- A document that is recorded as it is meets its contract. -/
theorem recorded?_valid {doc : Value} {r : AdapterResult} (h : recorded? doc = .ok r) :
    r.Valid := by
  unfold recorded? at h
  split at h
  · rename_i clean
    injection h with h
    subst h
    have nonBlank {key : Text}
        (member : Check.required key .text Check.notBlank [] doc = []) :
        Text.isBlankText ((doc.member? key).getD .null).text = false := by
      obtain ⟨v, found, -⟩ := Check.required_clean.1 member
      rw [found]
      exact text_nonBlank ((Contract.required_nonBlank found).1 member)
    unfold Contract.adapterResult at clean
    split at clean
    · simp only [Check.both_cons_clean] at clean
      exact ⟨nonBlank clean.2.1, nonBlank clean.2.2.2.2.1⟩
    · cases clean
  · cases h

section

variable {name : Text} (named : Text.isBlankText name = false)
include named

theorem records_failure (message : Text) : Records (failure name message) :=
  fun c hc => ⟨⟨named, hc c.asked⟩, hc.tick⟩

theorem records_invalid (issues : List Text) : Records (invalid name issues) :=
  records_failure named _

theorem records_record (doc : Value) : Records (record name doc) := by
  intro c hc
  unfold record
  cases h : recorded? doc with
  | error issues => exact records_invalid named _ c hc
  | ok r => exact ⟨recorded?_valid h, hc⟩

theorem records_settle (reply : Reply) : Records (settle name reply) := by
  cases reply with
  | failed f => exact records_failure named _
  | given r =>
      obtain ⟨adapter, status, timestamp, message⟩ := r
      cases status with
      | known s => exact records_record named _
      | other v => exact records_invalid named _
  | document v =>
      cases v with
      | object ms => exact fun c hc => records_record named _ c.tick.2 hc.tick
      | null | bool _ | int _ | float _ | str _ | list _ => exact records_invalid named _

end

end Reply

namespace Adapter

/-- What every adapter brings: its kind has a name, and it asks the clock without spoiling it. -/
structure Proper (a : Adapter) : Prop where
  kind : Text.isBlankText a.kind = false
  clock : ∀ f ∈ a.perform, ∀ action request (c : Clock), c.Proper → (f action request c).2.Proper

theorem displayName_nonBlank {a : Adapter} (h : a.Proper) :
    Text.isBlankText a.displayName = false := by
  unfold displayName
  split
  · split
    · exact h.kind
    · rename_i full
      simpa using full
  · exact h.kind

theorem deliver_proper {a : Adapter} (h : a.Proper) (action : Value) (request : Request) {c : Clock}
    (hc : c.Proper) : (a.deliver action request c).2.Proper := by
  unfold deliver
  cases perform : a.perform with
  | none => exact hc
  | some f => exact h.clock f perform action request c hc

/-- Whatever an adapter does, its result is valid. -/
theorem records_run {a : Adapter} (h : a.Proper) (action : Value) (request : Request) :
    Records (a.run action request) :=
  fun c hc => Reply.records_settle (displayName_nonBlank h) (awaited (a.deliver action request c).1)
    (a.deliver action request c).2 (deliver_proper h action request hc)

end Adapter

end ReleaseGate
