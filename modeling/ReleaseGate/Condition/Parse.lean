import ReleaseGate.Condition.Token

/-!
The grammar of conditions over tokens: comparisons of an identifier with a literal, joined by `&&`
and `||`, of which `&&` binds tighter; there are no brackets. Identifiers must be allowed. The first
token that cannot go on a sentence is the one that is reported.
-/

namespace ReleaseGate.Condition

def joinFirst (c : Comparison) : List (List Comparison) → List (List Comparison)
  | [] => [[c]]
  | t :: ts => (c :: t) :: ts

/-- The terms of a sentence in a text of `size` characters. -/
def sentence (allowed : List Text) (size : Nat) :
    List Token → Except Fault (List (List Comparison))
  | [] => .error ⟨.unexpectedEnd .identifier, size⟩
  | name :: rest =>
      if name.meaning ≠ .identifier then .error ⟨.notAnIdentifier name.text, name.position⟩
      else if name.text ∉ allowed then .error ⟨.unknownIdentifier name.text, name.position⟩
      else
        match rest with
        | [] => .error ⟨.unexpectedEnd .operator, size⟩
        | op :: rest =>
            match op.meaning with
            | .comparison operator =>
                match rest with
                | [] => .error ⟨.unexpectedEnd .literal, size⟩
                | lit :: rest =>
                    match lit.meaning with
                    | .literal v =>
                        let c : Comparison := ⟨name.text, operator, v, name.position⟩
                        match rest with
                        | [] => .ok [[c]]
                        | next :: rest =>
                            match next.meaning with
                            | .connective .both =>
                                (sentence allowed size rest).map (joinFirst c)
                            | .connective .either =>
                                (sentence allowed size rest).map ([c] :: ·)
                            | _ => .error ⟨.unexpectedToken next.text, next.position⟩
                    | .identifier => .error ⟨.bareWord lit.text, lit.position⟩
                    | _ => .error ⟨.notALiteral lit.text, lit.position⟩
            | _ => .error ⟨.notAnOperator op.text, op.position⟩

def ofTokens (allowed : List Text) (source : Text) (ts : List Token) :
    Except Fault Condition :=
  if ts.isEmpty then .error ⟨.empty, 0⟩
  else (sentence allowed source.length ts).map fun terms => ⟨source, terms⟩

def parse (allowed : List Text) (source : Text) : Except Fault Condition := do
  ofTokens allowed source (← tokenize source)

end ReleaseGate.Condition
