import ReleaseGate.Proofs.Json.Lexemes

/-!
The characters of the text of a value. None of them is a control character, so the text stays on one
line.
-/

namespace ReleaseGate.Json

def Printable (s : List CodePoint) : Prop := ∀ c ∈ s, ¬ c < ' '

theorem printable_cons {c : CodePoint} {s : List CodePoint} :
    Printable (c :: s) ↔ ¬ c < ' ' ∧ Printable s := List.forall_mem_cons

theorem printable_append {s t : List CodePoint} : Printable (s ++ t) ↔ Printable s ∧ Printable t :=
  List.forall_mem_append

theorem printable_spaces (n : Nat) : Printable (List.replicate n (.char ' ')) := by
  intro c hc
  rw [(List.mem_replicate.1 hc).2]
  decide

theorem isNumberChar_printable {c : CodePoint} (h : isNumberChar c = true) : ¬ c < ' ' := by
  cases c with
  | surrogate u => cases h
  | char c =>
      simp only [isNumberChar, Bool.or_eq_true, beq_iff_eq] at h
      obtain ((((h | rfl) | rfl) | rfl) | rfl) | rfl := h
      · simp only [isDigit, Bool.and_eq_true, decide_eq_true_eq] at h
        intro low
        exact absurd (Nat.lt_of_le_of_lt h.1 low) (by decide)
      all_goals decide

theorem printable_number (n : NumberText) : Printable (n.text.map .char) :=
  List.forall_mem_map.2 fun c hc => isNumberChar_printable (numberText_chars n c hc)

theorem printable_string (s : List CodePoint) : Printable (writeString s) :=
  fun _ hc => writeString_printable hc

section

variable {l : Layout} (hl : l.Plain)
include hl

theorem printable_item : Printable l.item := by
  obtain ⟨n, hi⟩ := hl.item
  exact hi ▸ printable_cons.2 ⟨by decide, printable_spaces n⟩

theorem printable_member : Printable l.member := by
  obtain ⟨n, hm⟩ := hl.member
  exact hm ▸ printable_cons.2 ⟨by decide, printable_spaces n⟩

theorem printable_items {vs : List Value} (printable : ∀ v ∈ vs, Printable (write l v)) :
    Printable (writeItems l vs) := by
  induction vs with
  | nil => exact List.forall_mem_nil _
  | cons v vs ih =>
      have parts := List.forall_mem_cons.1 printable
      simp only [writeItems, printable_append]
      exact ⟨⟨printable_item hl, parts.1⟩, ih parts.2⟩

theorem printable_members {ms : List (Text × Value)}
    (printable : ∀ m ∈ ms, Printable (write l m.2)) : Printable (writeMembers l ms) := by
  induction ms with
  | nil => exact List.forall_mem_nil _
  | cons m ms ih =>
      have parts := List.forall_mem_cons.1 printable
      simp only [writeMembers, printable_append]
      exact ⟨⟨⟨⟨printable_item hl, printable_string _⟩, printable_member hl⟩, parts.1⟩, ih parts.2⟩

/-- No control character is written, so a value stays on one line. -/
theorem write_printable (v : Value) : Printable (write l v) := by
  have word {s : List CodePoint} (h : s.all (fun c => !(decide (c < ' '))) = true) :
    Printable s := by
    simpa [Printable] using h
  induction v with
  | null => exact word rfl
  | bool b => cases b <;> exact word rfl
  | int i =>
      rw [write, ← integerText_text]
      exact printable_number _
  | float x =>
      rw [write]
      cases x with
      | nan => exact word rfl
      | infinite negative => cases negative <;> exact word rfl
      | finite negative q fits =>
          obtain ⟨n, text, -⟩ := double_text negative fits numberWords
          exact text ▸ printable_number n
  | str s => exact printable_string _
  | list vs ih =>
      cases vs with
      | nil => exact word rfl
      | cons v vs =>
          have parts := List.forall_mem_cons.1 ih
          simp only [write, printable_cons, printable_append]
          exact ⟨by decide, ⟨parts.1, printable_items hl parts.2⟩, by decide, List.forall_mem_nil _⟩
  | object ms ih =>
      cases ms with
      | nil => exact word rfl
      | cons m ms =>
          have parts := List.forall_mem_cons.1 ih
          simp only [write, printable_cons, printable_append]
          exact ⟨by decide, ⟨⟨⟨printable_string _, printable_member hl⟩, parts.1⟩,
            printable_members hl parts.2⟩, by decide, List.forall_mem_nil _⟩

end

end ReleaseGate.Json
