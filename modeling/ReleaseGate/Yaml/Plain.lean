import ReleaseGate.Yaml.Date

/-!
What plain scalars stand for. The spellings are those of YAML 1.1: several words for the booleans
and null, integers in four bases and in sexagesimal places, floats that need a point, and dates.
-/

namespace ReleaseGate.Yaml

inductive Plain where
  | null
  | bool (b : Bool)
  | int (i : Int)
  | float (x : Double)
  | date (iso : String)
  /-- The mark of a base without a digit after it. -/
  | noDigits (base : Nat)
  | text (s : Text)
  deriving DecidableEq

def nullWords : List String := ["~", "null", "Null", "NULL", ""]

def trueWords : List String :=
  ["yes", "Yes", "YES", "true", "True", "TRUE", "on", "On", "ON"]

def falseWords : List String :=
  ["no", "No", "NO", "false", "False", "FALSE", "off", "Off", "OFF"]

def infinityWords : List String := [".inf", ".Inf", ".INF"]

def nanWords : List String := [".nan", ".NaN", ".NAN"]

def splitSign : List Char → Option Bool × List Char
  | '-' :: rest => (some true, rest)
  | '+' :: rest => (some false, rest)
  | s => (none, s)

def isDigitOrUnderscore (c : Char) : Bool := Json.isDigit c || c == '_'

def digitsOnly (s : List Char) : List Char := s.filter (· != '_')

def numberIn (base : Nat) (ds : List Char) : Option Nat :=
  ds.foldlM (fun n (d : Char) =>
    match Json.hexValue? d with
    | some v => if v < base then some (base * n + v) else none
    | none => none) 0

def colonParts (s : List Char) : List (List Char) :=
  s.foldr (fun c parts =>
    match c, parts with
    | ':', _ => [] :: parts
    | _, p :: ps => (c :: p) :: ps
    | _, [] => [[c]]) [[]]

def isSexagesimal : List Char → Bool
  | [d] => Json.isDigit d
  | [t, d] => '0' ≤ t && t ≤ '5' && Json.isDigit d
  | _ => false

def decimalValue (s : List Char) : Nat :=
  (digitsOnly s).foldl (fun n d => 10 * n + Json.digitValue d) 0

/-- The value of places of sixty, highest first. -/
def sexagesimalValue (parts : List (List Char)) : Nat :=
  parts.foldl (fun n p => 60 * n + decimalValue p) 0

def startsWithDigit : List Char → Bool
  | d :: _ => Json.isDigit d
  | [] => false

def magnitude? (s : List Char) : Option Nat :=
  match s with
  | '0' :: 'b' :: ds =>
      if !ds.isEmpty && ds.all (fun c => c == '0' || c == '1' || c == '_') then
        numberIn 2 (digitsOnly ds)
      else none
  | '0' :: 'x' :: ds =>
      if !ds.isEmpty && ds.all (fun c => (Json.hexValue? c).isSome || c == '_') then
        numberIn 16 (digitsOnly ds)
      else none
  | ['0'] => some 0
  | '0' :: ds =>
      if ds.all (fun c => ('0' ≤ c && c ≤ '7') || c == '_') then numberIn 8 (digitsOnly ds)
      else none
  | s =>
      match colonParts s with
      | [whole] =>
          if startsWithDigit whole && whole.all isDigitOrUnderscore then some (decimalValue whole)
          else none
      | whole :: places =>
          if startsWithDigit whole && whole.all isDigitOrUnderscore && places.all isSexagesimal then
            some (sexagesimalValue (whole :: places))
          else none
      | [] => none

/-- The base whose mark is followed by underscores only. -/
def baseWithoutDigits? (s : List Char) : Option Nat :=
  match (splitSign s).2 with
  | '0' :: 'b' :: '_' :: ds => if ds.all (· == '_') then some 2 else none
  | '0' :: 'x' :: '_' :: ds => if ds.all (· == '_') then some 16 else none
  | _ => none

def int? (s : List Char) : Option Int :=
  let (sign, s) := splitSign s
  (magnitude? s).map fun n => if sign = some true then -(n : Int) else n

/-- An exponent, which must show its sign; no exponent counts as zero. -/
def exponent? : List Char → Option Int
  | [] => some 0
  | e :: sign :: ds =>
      if (e == 'e' || e == 'E') && (sign == '+' || sign == '-') && !ds.isEmpty &&
          ds.all Json.isDigit then
        some (if sign = '-' then -(decimalValue ds : Int) else decimalValue ds)
      else none
  | _ => none

def values (s : List Char) : List Nat := (digitsOnly s).map Json.digitValue

/-- The value of places of sixty, highest first, with a fraction of the last one. Each place is
rounded and added by itself, from the last to the first. -/
def sexagesimalFloat (negative : Bool) (parts : List (List Char)) (fraction : List Char) : Double :=
  let place (p : List Char) (sixties : Nat) (fraction : List Char) : Double :=
    (Double.ofDigits false (values p) (values fraction) 0).mul (Double.ofInt (Nat.pow 60 sixties))
  let sum := match parts.reverse with
    | [] => Double.zero false
    | last :: others => (others.zipIdx 1).foldl (fun sum p => sum.add (place p.1 p.2 []))
        (place last 0 fraction)
  if negative then (Double.ofInt (-1)).mul sum else sum

/-- A float: digits and a point, with a sign only before a digit or an infinity. -/
def float? (s : List Char) : Option Double :=
  let (sign, body) := splitSign s
  let negative := sign == some true
  if infinityWords.contains (String.ofList body) then some (.infinite negative)
  else if nanWords.contains (String.ofList s) then some .nan
  else
    let whole := body.takeWhile (· != '.')
    match body.dropWhile (· != '.') with
    | [] => none
    | _ :: rest =>
        let fraction := rest.takeWhile isDigitOrUnderscore
        match exponent? (rest.dropWhile isDigitOrUnderscore) with
        | none => none
        | some e =>
            match whole with
            | [] =>
                if sign.isNone && startsWithDigit fraction then
                  some (Double.ofDigits false [] (values fraction) e)
                else none
            | _ =>
                match colonParts whole with
                | [w] =>
                    if startsWithDigit w && w.all isDigitOrUnderscore then
                      some (Double.ofDigits negative (values w) (values fraction) e)
                    else none
                | w :: places =>
                    if startsWithDigit w && w.all isDigitOrUnderscore &&
                        places.all isSexagesimal && rest.all isDigitOrUnderscore then
                      some (sexagesimalFloat negative (w :: places) fraction)
                    else none
                | [] => none

def Plain.ofText (s : String) : Plain :=
  let cs := s.toList
  if nullWords.contains s then .null
  else if trueWords.contains s then .bool true
  else if falseWords.contains s then .bool false
  else
    match baseWithoutDigits? cs, int? cs with
    | some base, _ => .noDigits base
    | none, some i => .int i
    | none, none =>
        match float? cs with
        | some x => .float x
        | none => if isDate cs then .date s else .text s

end ReleaseGate.Yaml
