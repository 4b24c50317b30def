import ReleaseGate.Condition.Parse
import ReleaseGate.Signal
import ReleaseGate.Value.Compare

/-!
The truth of a condition for a signal vector. A signal and a literal of different kinds are unequal
and unordered; numbers compare by their exact places, an integer with a double too.
-/

namespace ReleaseGate

namespace Literal

def toValue : Literal → Value
  | .text s => .str s
  | .flag b => .bool b
  | .number x => .float x

def sameKind : Literal → Value → Bool
  | .text _, .str _ | .flag _, .bool _ | .number _, .int _ | .number _, .float _ => true
  | _, _ => false

end Literal

def Operator.holds (op : Operator) (v w : Value) : Bool :=
  match op with
  | .equal => v.same w
  | .notEqual => !v.same w
  | .greater => (w.before? v).getD false
  | .less => (v.before? w).getD false
  | .atLeast => (w.notAfter? v).getD false
  | .atMost => (v.notAfter? w).getD false

namespace Comparison

def holds (c : Comparison) (x : SignalVector) : Bool :=
  match Signal.ofIdentifier? c.identifier with
  | none => false
  | some s =>
      if c.literal.sameKind (x s) then c.operator.holds (x s) c.literal.toValue
      else c.operator == .notEqual

end Comparison

namespace Condition

def holds (c : Condition) (x : SignalVector) : Bool :=
  c.terms.any fun t => t.all fun f => f.holds x

/-- The truth of a text whose identifiers are those of the signals. -/
def evaluate (source : Text) (x : SignalVector) : Except Fault Bool :=
  (parse Signal.identifiers source).map fun c => c.holds x

end Condition

end ReleaseGate
