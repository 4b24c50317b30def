import ReleaseGate.Text.Basic

/-!
Sorting by insertion, with the order as an argument. Equal elements keep their places.
-/

namespace ReleaseGate

/-- Puts an element before the first one that it does not follow. -/
def insertSorted {α : Type} (before : α → α → Bool) (a : α) : List α → List α
  | [] => [a]
  | b :: rest => if before b a then b :: insertSorted before a rest else a :: b :: rest

def sortBy {α : Type} (before : α → α → Bool) : List α → List α
  | [] => []
  | a :: rest => insertSorted before a (sortBy before rest)

def sortTexts (ss : List Text) : List Text := sortBy (fun s t => s < t) ss

end ReleaseGate
