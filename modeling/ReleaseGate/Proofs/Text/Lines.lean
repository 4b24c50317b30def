import Mathlib.Data.List.TakeWhile
import ReleaseGate.Text.Blank
import ReleaseGate.Text.Lines

/-!
Lines that were written one after another, each with a line feed behind it, are cut apart again, and
a line with no blank at either end is left as it is by stripping.
-/

namespace ReleaseGate.Text

/-- A line that reading a text leaves alone: no line end in it and no blank at either end. -/
structure IsLine (l : List CodePoint) : Prop where
  noLineEnd : ∀ c ∈ l, c ≠ '\n' ∧ c ≠ '\r'
  first : ∃ c rest, l = c :: rest ∧ isBlank c = false
  last : ∃ rest c, l = rest ++ [c] ∧ isBlank c = false

theorem unifyLineEnds_plain {s : List CodePoint} (h : .char '\r' ∉ s) : unifyLineEnds s = s := by
  induction s with
  | nil => rfl
  | cons c s ih =>
      obtain ⟨head, tail⟩ := not_or.1 (fun hm => h (List.mem_cons.2 hm))
      rw [unifyLineEnds]
      · rw [if_neg (Ne.symm head), ih tail]
      · exact fun _ hc => absurd hc.symm head

theorem unifyLineEnds_append (s : List CodePoint) {t : List CodePoint}
    (ht : ∀ c ∈ t.head?, c ≠ '\n') :
    unifyLineEnds (s ++ t) = unifyLineEnds s ++ unifyLineEnds t := by
  fun_induction unifyLineEnds s with
  | case1 => rfl
  | case2 rest ih => rw [List.cons_append, List.cons_append, unifyLineEnds, ih, List.cons_append]
  | case3 c rest single ih =>
      rw [List.cons_append, unifyLineEnds, ih, List.cons_append]
      intro after feed same
      cases rest with
      | nil => exact ht '\n' (by rw [show t = _ from same]; rfl) rfl
      | cons d rest =>
          injection same with first
          exact single rest feed (by rw [first])

theorem splitAt_ne_nil (p : CodePoint → Bool) (s : List CodePoint) : splitAt p s ≠ [] := by
  cases s with
  | nil => simp [splitAt]
  | cons c s =>
      rw [splitAt]
      split
      · simp
      · split <;> simp

theorem splitAt_plain {p : CodePoint → Bool} {s : List CodePoint} (hs : ∀ d ∈ s, p d = false) :
    splitAt p s = [s] := by
  induction s with
  | nil => rfl
  | cons d s ih =>
      have parts := List.forall_mem_cons.1 hs
      rw [splitAt, if_neg (by simp [parts.1]), ih parts.2]

/-- The last part goes on with a text that holds no separator. -/
theorem splitAt_append {p : CodePoint → Bool} (s : List CodePoint) {t : List CodePoint}
    (ht : ∀ d ∈ t, p d = false) :
    splitAt p (s ++ t) = (splitAt p s).dropLast ++ [(splitAt p s).getLastD [] ++ t] := by
  induction s with
  | nil => simp [splitAt, splitAt_plain ht]
  | cons c s ih =>
      obtain ⟨part, parts, cut⟩ := List.exists_cons_of_ne_nil (splitAt_ne_nil p s)
      rw [List.cons_append, splitAt, splitAt, ih, cut]
      cases parts with
      | nil => split <;> rfl
      | cons => split <;> simp

/-- A separator cuts a text in two. -/
theorem splitAt_separated {p : CodePoint → Bool} {c : CodePoint} (hc : p c = true)
    (s rest : List CodePoint) :
    splitAt p (s ++ c :: rest) = splitAt p s ++ splitAt p rest := by
  induction s with
  | nil => simp [splitAt, hc]
  | cons d s ih =>
      obtain ⟨part, parts, cut⟩ := List.exists_cons_of_ne_nil (splitAt_ne_nil p s)
      rw [List.cons_append, splitAt, splitAt, ih, cut]
      split <;> rfl

/-- Written lines are the lines of the text, before the empty rest behind the last of them. -/
theorem lines_written {ls : List (List CodePoint)} (h : ∀ l ∈ ls, IsLine l) :
    lines (ls.flatMap (· ++ [.char '\n'])) = ls ++ [[]] := by
  have plain : .char '\r' ∉ ls.flatMap (· ++ [.char '\n']) := by
    simp only [List.mem_flatMap, List.mem_append, List.mem_singleton, not_exists, not_and, not_or]
    exact fun l hl => ⟨fun hr => ((h l hl).noLineEnd _ hr).2 rfl, by decide⟩
  rw [lines, unifyLineEnds_plain plain]
  clear plain
  induction ls with
  | nil => rfl
  | cons l ls ih =>
      have parts := List.forall_mem_cons.1 h
      have inside : ∀ d ∈ l, (d == '\n') = false := fun d hd => by
        simpa using (parts.1.noLineEnd d hd).1
      simp only [List.flatMap_cons, List.append_assoc, List.cons_append, List.nil_append]
      rw [splitAt_separated (by decide), splitAt_plain inside, ih parts.2]
      rfl

theorem strip_line {l : List CodePoint} (h : IsLine l) : strip l = l := by
  obtain ⟨c, rest, hl, hc⟩ := h.first
  obtain ⟨before, d, hl', hd⟩ := h.last
  have front : l.dropWhile isBlank = l := by
    rw [hl]
    simp [hc]
  have back : l.reverse.dropWhile isBlank = l.reverse := by
    rw [hl']
    simp [hd]
  rw [strip, front, back, List.reverse_reverse]

theorem IsLine.plain {l : List CodePoint} (h : IsLine l) : unifyLineEnds l = l :=
  unifyLineEnds_plain fun return_ => (h.noLineEnd _ return_).2 rfl

/-- The only line of a text. -/
theorem lines_line {l : List CodePoint} (h : IsLine l) : lines l = [l] := by
  rw [lines, h.plain, splitAt_plain fun c hc => by simpa using (h.noLineEnd c hc).1]

def openLine (s : List CodePoint) : List CodePoint := (lines s).getLastD []

/-- A line that is written behind a text goes on with the open line. -/
theorem lines_append_line (s : List CodePoint) {l : List CodePoint} (h : IsLine l) :
    lines (s ++ (l ++ [.char '\n'])) = (lines s).dropLast ++ [openLine s ++ l, []] := by
  obtain ⟨c, rest, rfl, -⟩ := h.first
  have start : ∀ d ∈ (c :: rest ++ [CodePoint.char '\n']).head?, d ≠ '\n' := fun d hd =>
    (h.noLineEnd d (List.mem_of_mem_head? hd)).1
  have ended : unifyLineEnds (c :: rest ++ [.char '\n']) = c :: rest ++ [.char '\n'] := by
    refine unifyLineEnds_plain fun return_ => ?_
    obtain inside | feed := List.mem_append.1 return_
    · exact (h.noLineEnd _ inside).2 rfl
    · exact absurd feed (by decide)
  have inside : ∀ d ∈ c :: rest, (d == '\n') = false := fun d hd => by
    simpa using (h.noLineEnd d hd).1
  rw [lines, unifyLineEnds_append s start, ended, ← List.append_assoc,
    splitAt_separated (by decide),
    splitAt_append _ inside, List.append_assoc]
  rfl

theorem dropWhile_blank (s : List CodePoint) : ∃ blanks,
    s.dropWhile isBlank = strip s ++ blanks := by
  have parts := List.takeWhile_append_dropWhile (p := isBlank) (l := (s.dropWhile isBlank).reverse)
  refine ⟨((s.dropWhile isBlank).reverse.takeWhile isBlank).reverse, ?_⟩
  rw [strip, ← List.reverse_append, parts, List.reverse_reverse]

theorem strip_eq_nil {s : List CodePoint} : strip s = [] ↔ s.dropWhile isBlank = [] := by
  constructor
  · intro none
    rw [strip, List.reverse_eq_nil_iff, List.dropWhile_eq_nil_iff] at none
    have first := List.head?_dropWhile_not isBlank s
    cases shape : s.dropWhile isBlank with
    | nil => rfl
    | cons c rest =>
        rw [shape] at none first
        have blank : isBlank c = true := none c (by simp)
        exact absurd (blank.symm.trans first) (by decide)
  · intro none
    rw [strip, none]
    rfl

/-- A line behind a text keeps what stands before it, from the first character that is no blank. -/
theorem strip_append_line (s : List CodePoint) {l : List CodePoint} (h : IsLine l) :
    strip (s ++ l) = s.dropWhile isBlank ++ l := by
  obtain ⟨c, rest, start, ink⟩ := h.first
  obtain ⟨before, d, stop, inkLast⟩ := h.last
  have front : (s ++ l).dropWhile isBlank = s.dropWhile isBlank ++ l := by
    rw [List.dropWhile_append]
    split
    · rename_i none
      rw [List.isEmpty_iff.1 none, start]
      simp [ink]
    · rfl
  rw [strip, front, stop]
  simp [inkLast]

end ReleaseGate.Text
