import ReleaseGate.Condition.Token

/-!
The identifiers that a text mentions, whether or not it parses: the words outside quoted spans,
except `true` and `false`, each with its position.
-/

namespace ReleaseGate.Condition

def isKeyword (word : List CodePoint) : Bool := word == Text.toList "true" ||
    word == Text.toList "false"

def mentionsFrom (position : Nat) (s : List CodePoint) : List (Text × Nat) :=
  match s with
  | [] => []
  | c :: rest =>
      match stringAt? (c :: rest) with
      | some n => mentionsFrom (position + n) (rest.drop (n - 1))
      | none =>
          match identifierAt? (c :: rest) with
          | some n =>
              let word := (c :: rest).take n
              let more := mentionsFrom (position + n) (rest.drop (n - 1))
              if isKeyword word then more else (Text.ofList word, position) :: more
          | none => mentionsFrom (position + 1) rest
termination_by s.length
decreasing_by all_goals simp only [List.length_drop, List.length_cons]; omega

/-- The identifiers of a text with their positions, in order of appearance. -/
def mentions (source : Text) : List (Text × Nat) := mentionsFrom 0 source.toList

end ReleaseGate.Condition
