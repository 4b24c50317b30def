import ReleaseGate.Json.Text
import ReleaseGate.Number.Decimal

/-!
Conditions are disjunctions of conjunctions of comparisons. A comparison sets an identifier against
a literal; it keeps the position of its identifier. Every refusal of a text names a position in it.
-/

namespace ReleaseGate

inductive Operator where
  | equal
  | notEqual
  | greater
  | less
  | atLeast
  | atMost
  deriving DecidableEq

def Operator.symbol : Operator → Text
  | .equal => "=="
  | .notEqual => "!="
  | .greater => ">"
  | .less => "<"
  | .atLeast => ">="
  | .atMost => "<="

inductive Connective where
  | both
  | either
  deriving DecidableEq

inductive Literal where
  | text (s : Text)
  | flag (b : Bool)
  | number (x : Double)
  deriving DecidableEq

structure Comparison where
  identifier : Text
  operator : Operator
  literal : Literal
  position : Nat
  deriving DecidableEq

/-- A parsed text: the terms of a disjunction, each a list of comparisons that hold together. -/
structure Condition where
  source : Text
  terms : List (List Comparison)
  deriving DecidableEq

namespace Condition

def identifiers (c : Condition) : List Text :=
  c.terms.flatMap fun t => t.map Comparison.identifier

/-- What a comparison needs next, as messages name it. -/
inductive Part where
  | identifier
  | operator
  | literal
  deriving DecidableEq

def Part.text : Part → Text
  | .identifier => "identifier"
  | .operator => "comparison operator"
  | .literal => "literal"

inductive Cause where
  | unexpectedCharacter (c : CodePoint)
  | invalidString (fault : Json.StringFault)
  | empty
  | unexpectedEnd (expected : Part)
  | unexpectedToken (text : Text)
  | notAnIdentifier (text : Text)
  | unknownIdentifier (text : Text)
  | notAnOperator (text : Text)
  | bareWord (text : Text)
  | notALiteral (text : Text)
  deriving DecidableEq

inductive FaultKind where
  | lexical
  | grammatical
  | unknownIdentifier
  deriving DecidableEq

namespace Cause

def message : Cause → Text
  | .unexpectedCharacter c => "Unexpected character " ++ Text.quoted (Text.singleton c)
  | .invalidString fault => "Invalid string literal (" ++ fault.message ++ ")"
  | .empty => "Empty expression"
  | .unexpectedEnd expected => "Unexpected end of expression, expected " ++ expected.text
  | .unexpectedToken text => "Unexpected token " ++ Text.quoted text
  | .notAnIdentifier text => "Expected identifier, got " ++ Text.quoted text
  | .unknownIdentifier text => "Unknown identifier " ++ Text.quoted text
  | .notAnOperator text => "Expected comparison operator, got " ++ Text.quoted text
  | .bareWord text =>
      "Bare word " ++ Text.quoted text ++ " is not a literal (quote strings)"
  | .notALiteral text => "Expected literal, got " ++ Text.quoted text

def kind : Cause → FaultKind
  | .unexpectedCharacter _ | .invalidString _ => .lexical
  | .unknownIdentifier _ => .unknownIdentifier
  | _ => .grammatical

end Cause

structure Fault where
  cause : Cause
  position : Nat
  deriving DecidableEq

def Fault.text (f : Fault) (source : Text) : Text :=
  f.cause.message ++ " at position " ++ intText f.position ++ " in expression " ++
    Text.quoted source

end Condition

end ReleaseGate
