import ReleaseGate.Condition.Basic
import ReleaseGate.Text.Blank
import ReleaseGate.Text.DecimalDigit

/-!
Tokens of conditions. At every place the first class of lexeme that fits is taken, in the order of
`classify?`; blanks are dropped and everything else becomes a token with its text, its position and,
for literals, its value.
-/

namespace ReleaseGate.Condition

/-- A class of lexemes, with what its text already decides. -/
inductive Class where
  | blank
  | comparison (op : Operator)
  | connective (c : Connective)
  | string
  | boolean (b : Bool)
  | number
  | identifier
  deriving DecidableEq

def isWordStart (c : CodePoint) : Bool :=
  ('A' ≤ c && c ≤ 'Z') || ('a' ≤ c && c ≤ 'z') || c == '_'

def isWordChar (c : CodePoint) : Bool :=
  isWordStart c || ('0' ≤ c && c ≤ '9') || c == '.'

def operatorAt? : List CodePoint → Option (Operator × Nat)
  | '=' :: '=' :: _ => some (.equal, 2)
  | '!' :: '=' :: _ => some (.notEqual, 2)
  | '>' :: '=' :: _ => some (.atLeast, 2)
  | '<' :: '=' :: _ => some (.atMost, 2)
  | '>' :: _ => some (.greater, 1)
  | '<' :: _ => some (.less, 1)
  | _ => none

def connectiveAt? : List CodePoint → Option (Connective × Nat)
  | '&' :: '&' :: _ => some (.both, 2)
  | '|' :: '|' :: _ => some (.either, 2)
  | _ => none

/-- The length of a quoted span up to its closing quote, after the opening one. A backslash takes
the next character with it, unless that is a line break. -/
def quotedLength? : List CodePoint → Option Nat
  | [] => none
  | '"' :: _ => some 1
  | '\\' :: c :: rest => if c = '\n' then none else (quotedLength? rest).map (· + 2)
  | ['\\'] => none
  | _ :: rest => (quotedLength? rest).map (· + 1)

def stringAt? : List CodePoint → Option Nat
  | '"' :: rest => (quotedLength? rest).map (· + 1)
  | _ => none

def continuesWord : List CodePoint → Bool
  | c :: _ => isWordChar c
  | [] => false

def booleanAt? : List CodePoint → Option (Bool × Nat)
  | 't' :: 'r' :: 'u' :: 'e' :: rest => if continuesWord rest then none else some (true, 4)
  | 'f' :: 'a' :: 'l' :: 's' :: 'e' :: rest => if continuesWord rest then none else some (false, 5)
  | _ => none

def unsignedLength? (s : List CodePoint) : Option Nat :=
  let whole := (s.takeWhile Text.isDecimalDigit).length
  if whole = 0 then none
  else
    match s.dropWhile Text.isDecimalDigit with
    | '.' :: rest =>
        let fraction := (rest.takeWhile Text.isDecimalDigit).length
        some (if fraction = 0 then whole else whole + 1 + fraction)
    | _ => some whole

def numberAt? : List CodePoint → Option Nat
  | '-' :: rest => (unsignedLength? rest).map (· + 1)
  | s => unsignedLength? s

def identifierAt? : List CodePoint → Option Nat
  | c :: rest => if isWordStart c then some (1 + (rest.takeWhile isWordChar).length) else none
  | [] => none

/-- The class of the lexeme at the head of a text, and its length. -/
def classify? (s : List CodePoint) : Option (Class × Nat) :=
  let blanks := (s.takeWhile Text.isBlank).length
  if blanks ≠ 0 then some (.blank, blanks)
  else
    ((operatorAt? s).map fun r => (.comparison r.1, r.2)) <|>
    ((connectiveAt? s).map fun r => (.connective r.1, r.2)) <|>
    ((stringAt? s).map fun n => (.string, n)) <|>
    ((booleanAt? s).map fun r => (.boolean r.1, r.2)) <|>
    ((numberAt? s).map fun n => (.number, n)) <|>
    ((identifierAt? s).map fun n => (.identifier, n))

/-- What a token means: the literals carry their values. -/
inductive Meaning where
  | comparison (op : Operator)
  | connective (c : Connective)
  | literal (v : Literal)
  | identifier
  deriving DecidableEq

structure Token where
  meaning : Meaning
  text : Text
  position : Nat
  deriving DecidableEq

def digitValues (s : List CodePoint) : List Nat := s.filterMap Text.digitValue?

def numeralValue (s : List CodePoint) : Double :=
  let (negative, digits) : Bool × List CodePoint :=
    match s with
    | '-' :: digits => (true, digits)
    | digits => (false, digits)
  Double.ofDigits negative (digitValues (digits.takeWhile Text.isDecimalDigit))
    (digitValues (digits.dropWhile Text.isDecimalDigit)) 0

/-- The meaning of a lexeme; blanks have none. -/
def meaning (k : Class) (lexeme : List CodePoint) : Except Cause (Option Meaning) :=
  match k with
  | .blank => .ok none
  | .comparison op => .ok (some (.comparison op))
  | .connective c => .ok (some (.connective c))
  | .boolean b => .ok (some (.literal (.flag b)))
  | .number => .ok (some (.literal (.number (numeralValue lexeme))))
  | .identifier => .ok (some .identifier)
  | .string =>
      match Json.readString (lexeme.drop 1) with
      | .ok (s, _) => .ok (some (.literal (.text (Text.ofList s))))
      | .error fault => .error (.invalidString fault)

def tokensFrom (position : Nat) (s : List CodePoint) : Except Fault (List Token) :=
  match s with
  | [] => .ok []
  | c :: rest =>
      match classify? (c :: rest) with
      | none => .error ⟨.unexpectedCharacter c, position⟩
      | some (k, n) =>
          let lexeme := (c :: rest).take n
          match meaning k lexeme with
          | .error cause => .error ⟨cause, position⟩
          | .ok m =>
              (tokensFrom (position + n) (rest.drop (n - 1))).map fun ts =>
                match m with
                | none => ts
                | some m => ⟨m, Text.ofList lexeme, position⟩ :: ts
termination_by s.length
decreasing_by simp only [List.length_drop, List.length_cons]; omega

def tokenize (source : Text) : Except Fault (List Token) := tokensFrom 0 source.toList

end ReleaseGate.Condition
