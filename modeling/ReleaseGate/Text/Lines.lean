import ReleaseGate.Text.Basic

/-!
Cutting texts into parts: at single characters, and at line ends in any of the three conventions.
-/

namespace ReleaseGate.Text

/-- The parts between the characters that satisfy a test; there is always at least one part. -/
def splitAt (p : CodePoint → Bool) : List CodePoint → List (List CodePoint)
  | [] => [[]]
  | c :: rest =>
      if p c then [] :: splitAt p rest
      else
        match splitAt p rest with
        | part :: parts => (c :: part) :: parts
        | [] => [[c]]

/-- Every line end as a line feed: a carriage return, alone or before a line feed, is one too. -/
def unifyLineEnds : List CodePoint → List CodePoint
  | [] => []
  | '\r' :: '\n' :: rest => '\n' :: unifyLineEnds rest
  | c :: rest => (if c = '\r' then '\n' else c) :: unifyLineEnds rest

def lines (s : List CodePoint) : List (List CodePoint) := splitAt (· == '\n') (unifyLineEnds s)

end ReleaseGate.Text
