import ReleaseGate.Text.Basic

/-!
Blank characters: the separators and control characters that count as whitespace in conditions and
around texts.
-/

namespace ReleaseGate.Text

def blankRanges : List (Nat × Nat) :=
  [(0x09, 0x0D), (0x1C, 0x20), (0x85, 0x85), (0xA0, 0xA0), (0x1680, 0x1680), (0x2000, 0x200A),
   (0x2028, 0x2029), (0x202F, 0x202F), (0x205F, 0x205F), (0x3000, 0x3000)]

def isBlank (c : CodePoint) : Bool :=
  blankRanges.any fun r => r.1 ≤ c.toNat && c.toNat ≤ r.2

/-- The text without the blanks at either end. -/
def strip (s : List CodePoint) : List CodePoint :=
  ((s.dropWhile isBlank).reverse.dropWhile isBlank).reverse

def isBlankText (s : Text) : Bool := s.toList.all isBlank

end ReleaseGate.Text
