import Mathlib.Data.List.Basic
import ReleaseGate.Contract.Verdict
import ReleaseGate.Proofs.Contract.Order

/-!
Checks that list the same issues, in the same order, whatever order the members of a document are
in. Unknown members are the one place where a check walks over members, and it sorts their names
first.
-/

namespace ReleaseGate

open Json (sorted)

section

variable {α β : Type} {before : α → α → Bool} {before' : β → β → Bool} {f : α → β}
  (agree : ∀ a b, before' (f a) (f b) = before a b)
include agree

theorem insertSorted_map (a : α) (as : List α) :
    insertSorted before' (f a) (as.map f) = (insertSorted before a as).map f := by
  induction as with
  | nil => rfl
  | cons b as ih =>
      simp only [List.map_cons, insertSorted, agree]
      split
      · rw [ih, List.map_cons]
      · rfl

theorem sortBy_map (as : List α) : sortBy before' (as.map f) = (sortBy before as).map f := by
  induction as with
  | nil => rfl
  | cons a as ih => rw [List.map_cons, sortBy, ih, insertSorted_map agree, sortBy]

end

theorem sortTexts_perm {ss ts : List Text} (h : ss.Perm ts) : sortTexts ss = sortTexts ts := by
  have asymm (s t : Text) (less : decide (s < t) = true) : decide (t < s) = false := by
    exact decide_eq_false (Text.lt_asymm (of_decide_eq_true less))
  have trans (s t u : Text) (least : decide (t < s) = false) (next : decide (u < t) = false) :
      decide (u < s) = false := by
    simp only [decide_eq_false_iff_not] at *
    exact Text.not_lt_trans least next
  refine sortBy_eq_of_perm asymm trans (h.trans (sortBy_perm _ ts).symm)
    (sortBy_ordered asymm trans ts) fun s t _ _ least least' => ?_
  simp only [decide_eq_false_iff_not] at least least'
  exact Text.eq_of_not_lt least least'

def unknownNames (allowed names : List Text) : List Text :=
  sortTexts (names.filter fun name => name ∉ allowed)

theorem unknownIssues_names (path : Path) (allowed names : List Text) :
    unknownIssues path (unknownKeys allowed (names.map Key.text)) =
      (unknownNames allowed names).map fun name => .at (path.member name) .unknownProperty := by
  have texts (s t : Text) : Key.before (.text s) (.text t) = decide (s < t) := rfl
  have known (k : Text) : Key.text k ∈ allowed.map Key.text ↔ k ∈ allowed := by simp
  rw [unknownIssues, unknownKeys, List.filter_map]
  simp only [Function.comp_def, known]
  rw [sortBy_map texts, List.map_map]
  rfl

theorem unknownNames_perm (allowed : List Text) {ss ts : List Text} (h : ss.Perm ts) :
    unknownNames allowed ss = unknownNames allowed ts := sortTexts_perm (h.filter _)

theorem mem_unknownNames {allowed names : List Text} {name : Text} :
    name ∈ unknownNames allowed names ↔ name ∈ names ∧ name ∉ allowed := by
  rw [unknownNames, sortTexts, (sortBy_perm _ _).mem_iff, List.mem_filter, decide_eq_true_eq]

theorem Value.typeName_sorted (v : Value) : (sorted v).typeName = v.typeName := by
  cases v <;> rfl

namespace Check

/-- On an object the unknown names are reported in sorted order, each at its own path. -/
theorem onlyMembers_object (allowed : List Text) (path : Path) (ms : List (Text × Value)) :
    (onlyMembers allowed : Check Value) path (.object ms) =
      (unknownNames allowed (Value.names ms)).map fun name =>
        .at (path.member name) .unknownProperty := by
  rw [← unknownIssues_names, Value.names, List.map_map]
  rfl

/-- A check that lists the same issues for a document and for the sorted one. -/
def Stable (c : Check Value) : Prop := ∀ path v, v.WellFormed → c path (sorted v) = c path v

namespace Stable

theorem of_eq {c : Check Value} (h : ∀ path v, c path (sorted v) = c path v) : Stable c :=
  fun path v _ => h path v

theorem anything : Stable anything := of_eq fun _ _ => rfl

/-- A check that sees nothing but the text of a document. -/
theorem ofText {c : Check Value} (h : ∀ path v, c path (.str v.text) = c path v) : Stable c :=
  of_eq fun path v => by rw [← h path (sorted v), Value.text_sorted, h path v]

theorem notBlank : Stable notBlank := ofText fun _ _ => rfl

theorem oneOf (allowed : List Text) : Stable (oneOf allowed) := ofText fun _ _ => rfl

theorem atLeast (least : Nat) : Stable (atLeast least) := of_eq fun _ v => by cases v <;> rfl

theorem isText : Stable isText := of_eq fun path v => by
  simp only [Check.isText, document_fits, Value.fits_sorted]
  show (if _ then _ else [Issue.at path (.wrongKind _ (sorted v).typeName)]) = _
  rw [Value.typeName_sorted]
  rfl

theorem both {cs : List (Check Value)} (h : ∀ c ∈ cs, Stable c) : Stable (both cs) :=
  fun path v hv => List.flatMap_congr fun c hc => h c hc path v hv

theorem and {c d : Check Value} (hc : Stable c) (hd : Stable d) : Stable (c.and d) :=
  fun path v hv => by rw [Check.and, hc path v hv, hd path v hv, Check.and]

theorem member {c : Check Value} (h : Stable c) (needed : Bool) (key : Text) (kind : Kind) :
    Stable (member needed key kind c) := by
  intro path v hv
  simp only [Check.member, document_member, Value.member?_sorted hv]
  cases found : v.member? key with
  | none => rfl
  | some w =>
      simp only [Option.map_some, document_fits, Value.fits_sorted,
        h _ w (Value.member_wellFormed hv found)]
      show (if _ then _ else [Issue.at _ (.wrongKind _ (sorted w).typeName)]) = _
      rw [Value.typeName_sorted]
      rfl

theorem each {c : Check Value} (h : Stable c) : Stable (each c) := by
  intro path v hv
  have items : Document.items (sorted v) = (Document.items v).map sorted := Value.items_sorted v
  have wellFormed : ∀ w ∈ Document.items v, w.WellFormed := Value.items_wellFormed hv
  simp only [Check.each, items, List.zipIdx_map, List.flatMap_map]
  exact List.flatMap_congr fun p hp => h _ p.1 (wellFormed p.1 (List.fst_mem_of_mem_zipIdx hp))

theorem onlyMembers (allowed : List Text) : Stable (onlyMembers allowed) := by
  intro path v _
  cases v with
  | object ms =>
      rw [sorted, onlyMembers_object, onlyMembers_object,
        unknownNames_perm allowed (Json.names_sortedMembers ms)]
  | null | bool _ | int _ | float _ | str _ | list _ => rfl

theorem object {c : Check Value} (h : Stable c) : Stable (object c) := by
  intro path v hv
  simp only [Check.object, document_fits, Value.fits_sorted]
  split
  · exact h path v hv
  · rfl

end Stable

end Check

end ReleaseGate
