import ReleaseGate.Sorting

/-!
Sorting by insertion keeps the elements and puts them in order. An order that tells all elements of
a list apart leaves one sorted list of them, whatever list they came in.
-/

namespace ReleaseGate

section

variable {α : Type} {before : α → α → Bool}

def Ordered (before : α → α → Bool) (as : List α) : Prop :=
  as.Pairwise fun a b => before b a = false

theorem insertSorted_perm (before : α → α → Bool) (a : α) (as : List α) :
    (insertSorted before a as).Perm (a :: as) := by
  induction as with
  | nil => exact List.Perm.refl _
  | cons b as ih =>
      simp only [insertSorted]
      split
      · exact (ih.cons b).trans (List.Perm.swap a b as)
      · exact List.Perm.refl _

theorem sortBy_perm (before : α → α → Bool) (as : List α) : (sortBy before as).Perm as := by
  induction as with
  | nil => exact List.Perm.refl _
  | cons a as ih => exact (insertSorted_perm before a _).trans (ih.cons a)

theorem sortBy_ordered_eq {as : List α} (h : Ordered before as) : sortBy before as = as := by
  induction as with
  | nil => rfl
  | cons a as ih =>
      have parts := List.pairwise_cons.1 h
      rw [sortBy, ih parts.2]
      cases as with
      | nil => rfl
      | cons b as => simp [insertSorted, parts.1 b (List.mem_cons_self ..)]

variable (asymm : ∀ a b, before a b = true → before b a = false)
  (trans : ∀ a b c, before b a = false → before c b = false → before c a = false)
include asymm trans

theorem insertSorted_ordered (a : α) {as : List α} (h : Ordered before as) :
    Ordered before (insertSorted before a as) := by
  induction as with
  | nil => exact List.pairwise_singleton _ _
  | cons b as ih =>
      have parts := List.pairwise_cons.1 h
      simp only [insertSorted]
      split
      · rename_i hb
        refine List.pairwise_cons.2 ⟨fun c hc => ?_, ih parts.2⟩
        obtain rfl | hc := List.mem_cons.1 ((insertSorted_perm before a as).mem_iff.1 hc)
        · exact asymm _ _ hb
        · exact parts.1 c hc
      · rename_i hb
        have hab : before b a = false := by simpa using hb
        refine List.pairwise_cons.2 ⟨fun c hc => ?_, h⟩
        obtain rfl | hc := List.mem_cons.1 hc
        · exact hab
        · exact trans a b c hab (parts.1 c hc)

theorem sortBy_ordered (as : List α) : Ordered before (sortBy before as) := by
  induction as with
  | nil => exact List.Pairwise.nil
  | cons a as ih => exact insertSorted_ordered asymm trans a ih

/-- A list is sorted into any ordered list of the same elements, if the order tells them apart. -/
theorem sortBy_eq_of_perm {as bs : List α} (h : as.Perm bs) (hb : Ordered before bs)
    (apart : ∀ a b, a ∈ as → b ∈ as → before a b = false → before b a = false → a = b) :
    sortBy before as = bs := by
  have perm := sortBy_perm before as
  refine List.Perm.eq_of_pairwise (fun a b ha hb hab hba => ?_)
    (sortBy_ordered asymm trans as) hb (perm.trans h)
  exact apart a b (perm.mem_iff.1 ha) (h.mem_iff.2 hb) hba hab

end

end ReleaseGate
