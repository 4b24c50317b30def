import ReleaseGate.Json.Text
import ReleaseGate.Value.Basic

/-!
Lexemes of JSON text: the six marks and the scalars. Besides the standard's words, `NaN`,
`Infinity` and `-Infinity` are numbers. A number without a fraction and an exponent is an integer.
-/

namespace ReleaseGate.Json

inductive Token where
  | openList
  | closeList
  | openObject
  | closeObject
  | comma
  | colon
  | scalar (v : Value)
  deriving DecidableEq

def isSpace (c : CodePoint) : Bool := c == ' ' || c == '\t' || c == '\n' || c == '\r'

def isDigit (c : Char) : Bool := '0' ≤ c && c ≤ '9'

def digitValue (c : Char) : Nat := c.toNat - '0'.toNat

def isNumberChar : CodePoint → Bool
  | .char c => isDigit c || c == '-' || c == '+' || c == '.' || c == 'e' || c == 'E'
  | .surrogate _ => false

def readExponent (s : List Char) : Option Int :=
  let (negative, ds) : Bool × List Char :=
    match s with
    | '-' :: ds => (true, ds)
    | '+' :: ds => (false, ds)
    | ds => (false, ds)
  if ds.isEmpty || !ds.all isDigit then none
  else
    let n : Int := ds.foldl (fun n d => 10 * n + digitValue d) (0 : Nat)
    some (if negative then -n else n)

/-- What follows the whole part: an optional fraction of at least one digit, then an optional
exponent. Nothing at all means an integer. -/
def readScaled (negative : Bool) (whole : List Char) (s : List Char) : Option Value :=
  let ofParts (fraction : List Char) (exponent : Int) : Value :=
    .float (Double.ofDigits negative (whole.map digitValue) (fraction.map digitValue) exponent)
  let fractionAndRest : Option (List Char × List Char) :=
    match s with
    | '.' :: rest =>
        let ds := rest.takeWhile isDigit
        if ds.isEmpty then none else some (ds, rest.dropWhile isDigit)
    | rest => some ([], rest)
  match fractionAndRest with
  | none => none
  | some ([], []) =>
      let n : Int := whole.foldl (fun n d => 10 * n + digitValue d) (0 : Nat)
      some (.int (if negative then -n else n))
  | some (fraction, []) => some (ofParts fraction 0)
  | some (fraction, e :: rest) =>
      if e = 'e' ∨ e = 'E' then (readExponent rest).map (ofParts fraction) else none

/-- The characters of a whole lexeme as a number: the whole part has no superfluous leading zero. -/
def readNumber (s : List Char) : Option Value :=
  let (negative, ds) : Bool × List Char :=
    match s with
    | '-' :: ds => (true, ds)
    | ds => (false, ds)
  let whole := ds.takeWhile isDigit
  match whole with
  | [] => none
  | '0' :: _ :: _ => none
  | _ => readScaled negative whole (ds.dropWhile isDigit)

def words : List (List Char × Value) :=
  [("null".toList, .null), ("true".toList, .bool true), ("false".toList, .bool false),
   ("NaN".toList, .float .nan), ("Infinity".toList, .float (.infinite false)),
   ("-Infinity".toList, .float (.infinite true))]

def readWord (s : List CodePoint) : Option (Token × List CodePoint) :=
  (words.find? fun w => (w.1.map CodePoint.char).isPrefixOf s).map fun w =>
    (.scalar w.2, s.drop w.1.length)

def nextToken : List CodePoint → Option (Token × List CodePoint)
  | [] => none
  | '[' :: rest => some (.openList, rest)
  | ']' :: rest => some (.closeList, rest)
  | '\x7b' :: rest => some (.openObject, rest)
  | '\x7d' :: rest => some (.closeObject, rest)
  | ',' :: rest => some (.comma, rest)
  | ':' :: rest => some (.colon, rest)
  | '"' :: rest =>
      match readString rest with
      | .ok (s, rest) => some (.scalar (.str (Text.ofList s)), rest)
      | .error _ => none
  | c :: rest =>
      match readWord (c :: rest) with
      | some r => some r
      | none =>
          if isNumberChar c then
            (readNumber ((c :: rest.takeWhile isNumberChar).filterMap CodePoint.char?)).map fun v =>
              (.scalar v, rest.dropWhile isNumberChar)
          else none

theorem readWord_length {s rest : List CodePoint} {t : Token} (h : readWord s = some (t, rest)) :
    rest.length < s.length := by
  unfold readWord at h
  obtain ⟨w, hw, h⟩ := Option.map_eq_some_iff.1 h
  injection h with _ h
  have starts : (w.1.map CodePoint.char).isPrefixOf s = true := by simpa using List.find?_some hw
  have least : 0 < w.1.length := by
    have h := List.mem_of_find?_eq_some hw
    simp only [words, List.mem_cons, List.not_mem_nil, or_false] at h
    rcases h with h | h | h | h | h | h <;> subst h <;> decide
  have le := (List.isPrefixOf_iff_prefix.1 starts).length_le
  rw [List.length_map] at le
  rw [← h, List.length_drop]
  omega

theorem nextToken_length {s rest : List CodePoint} {t : Token} (h : nextToken s = some (t, rest)) :
    rest.length < s.length := by
  unfold nextToken at h
  split at h
  case h_1 => cases h
  case h_8 r =>
    split at h
    case h_1 hr =>
      injection h with h
      injection h with _ h
      have := readString_length hr
      rw [← h, List.length_cons]
      omega
    case h_2 => cases h
  case h_9 =>
    split at h
    case h_1 hw =>
      injection h with h
      rw [h] at hw
      exact readWord_length hw
    case h_2 =>
      split at h
      · obtain ⟨_, _, h⟩ := Option.map_eq_some_iff.1 h
        injection h with _ h
        rw [← h, List.length_cons]
        exact Nat.lt_succ_of_le (List.dropWhile_sublist _).length_le
      · cases h
  all_goals
    injection h with h
    injection h with _ h
    simp [← h]

/-- All lexemes of a text, or nothing if some part of it is none. -/
def tokens? (s : List CodePoint) : Option (List Token) :=
  match s with
  | [] => some []
  | c :: rest =>
      if isSpace c then tokens? rest
      else
        match _h : nextToken (c :: rest) with
        | none => none
        | some (t, rest') => (tokens? rest').map (t :: ·)
termination_by s.length
decreasing_by
  · simp
  · exact nextToken_length ‹_›

end ReleaseGate.Json
