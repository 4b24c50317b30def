import ReleaseGate.Text.Basic

/-!
The order of texts. It is linear, as code points are ordered by their numbers and texts by the first
code point in which they differ.
-/

namespace ReleaseGate

namespace CodePoint

instance : Std.IsLinearOrder CodePoint where
  le_refl c := Nat.le_refl c.toNat
  le_trans _ _ _ := Nat.le_trans
  le_antisymm _ _ h h' := toNat_injective (Nat.le_antisymm h h')
  le_total c d := Nat.le_total c.toNat d.toNat

instance : Std.LawfulOrderLT CodePoint := ⟨fun _ _ => Nat.lt_iff_le_and_not_ge⟩

end CodePoint

namespace Text

theorem lt_asymm {s t : Text} (h : s < t) : ¬ t < s := List.lt_asymm h

theorem not_lt_trans {s t u : Text} (h : ¬ t < s) (h' : ¬ u < t) : ¬ u < s :=
  List.not_lt.2 (List.le_trans (List.not_lt.1 h) (List.not_lt.1 h'))

theorem eq_of_not_lt {s t : Text} (h : ¬ s < t) (h' : ¬ t < s) : s = t :=
  ext (List.le_antisymm (List.not_lt.1 h') (List.not_lt.1 h))

end Text

end ReleaseGate
