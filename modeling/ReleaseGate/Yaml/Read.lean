import ReleaseGate.Yaml.Lexeme
import ReleaseGate.Yaml.Tree

/-!
Documents from YAML text. The grammar is that of block and flow collections over the lexemes, where
a missing node is null; a text holds at most one document. The recursion is bounded by the number of
lexemes.
-/

namespace ReleaseGate.Yaml

/-- Where a node stands decides which forms it may take. -/
inductive Place where
  /-- In a block: any node. -/
  | block
  /-- A key or a value of a block mapping: any node, and a sequence without indentation too. -/
  | member
  /-- In a flow collection: no block. -/
  | flow
  deriving DecidableEq

inductive Goal where
  | node (place : Place)
  /-- The entries of a block sequence up to its end. -/
  | sequence (done : List Tree)
  /-- The entries of a sequence without indentation. -/
  | flat (done : List Tree)
  | mapping (done : List (Tree × Tree))
  | flowSequence (first : Bool) (done : List Tree)
  | flowMapping (first : Bool) (done : List (Tree × Tree))
  /-- A node, or nothing before one of the lexemes that can follow it. -/
  | optional (place : Place) (followers : List Lexeme)

/-- A value after its mark, or null where there is no mark. -/
def valueGoal (place : Place) (followers : List Lexeme) (ts : List Lexeme) :
    Option (Goal × List Lexeme) :=
  match ts with
  | .value :: rest => some (.optional place followers, rest)
  | _ => none

/-- Reads what is expected from the lexemes and gives what follows. -/
def readGoal : Nat → Goal → List Lexeme → Option (Tree × List Lexeme)
  | 0, _, _ => none
  | n + 1, goal, ts =>
      let memberValue (place : Place) (followers : List Lexeme) (ts : List Lexeme) :
          Option (Tree × List Lexeme) :=
        match valueGoal place followers ts with
        | some (g, ts) => readGoal n g ts
        | none => some (.null, ts)
      match goal with
      | .optional place followers =>
          match ts with
          | t :: _ => if followers.contains t then some (.null, ts) else readGoal n (.node place) ts
          | [] => some (.null, [])
      | .node place =>
          match ts with
          | .scalar s :: rest => some (.scalar (.text s), rest)
          | .plain s :: rest => some (.scalar (.ofText s), rest)
          | .openSequence :: rest => readGoal n (.flowSequence true []) rest
          | .openMapping :: rest => readGoal n (.flowMapping true []) rest
          | .blockSequence :: rest =>
              if place = .flow then none else readGoal n (.sequence []) rest
          | .blockMapping :: rest =>
              if place = .flow then none else readGoal n (.mapping []) rest
          | .entry :: _ => if place = .member then readGoal n (.flat []) ts else none
          | _ => none
      | .sequence done =>
          match ts with
          | .entry :: rest => do
              let (v, rest) ← readGoal n (.optional .block [.entry, .blockEnd]) rest
              readGoal n (.sequence (v :: done)) rest
          | .blockEnd :: rest => some (.list done.reverse, rest)
          | _ => none
      | .flat done =>
          match ts with
          | .entry :: rest => do
              let (v, rest) ← readGoal n (.optional .block [.entry, .key, .value, .blockEnd]) rest
              readGoal n (.flat (v :: done)) rest
          | _ => some (.list done.reverse, ts)
      | .mapping done =>
          match ts with
          | .key :: rest => do
              let followers : List Lexeme := [.key, .value, .blockEnd]
              let (k, rest) ← readGoal n (.optional .member followers) rest
              let (v, rest) ← memberValue .member followers rest
              readGoal n (.mapping ((k, v) :: done)) rest
          | .blockEnd :: rest => some (.mapping done.reverse, rest)
          | _ => none
      | .flowSequence first done =>
          match ts with
          | .closeSequence :: rest => some (.list done.reverse, rest)
          | _ => do
              let ts ←
                if first then some ts
                else
                  match ts with
                  | .comma :: rest => some rest
                  | _ => none
              match ts with
              | .closeSequence :: rest => some (.list done.reverse, rest)
              | .key :: rest => do
                  let (k, rest) ← readGoal n (.optional .flow [.value, .comma, .closeSequence]) rest
                  let (v, rest) ← memberValue .flow [.comma, .closeSequence] rest
                  readGoal n (.flowSequence false (.mapping [(k, v)] :: done)) rest
              | _ => do
                  let (v, rest) ← readGoal n (.node .flow) ts
                  readGoal n (.flowSequence false (v :: done)) rest
      | .flowMapping first done =>
          match ts with
          | .closeMapping :: rest => some (.mapping done.reverse, rest)
          | _ => do
              let ts ←
                if first then some ts
                else
                  match ts with
                  | .comma :: rest => some rest
                  | _ => none
              match ts with
              | .closeMapping :: rest => some (.mapping done.reverse, rest)
              | .key :: rest => do
                  let (k, rest) ← readGoal n (.optional .flow [.value, .comma, .closeMapping]) rest
                  let (v, rest) ← memberValue .flow [.comma, .closeMapping] rest
                  readGoal n (.flowMapping false ((k, v) :: done)) rest
              | _ => do
                  let (k, rest) ← readGoal n (.node .flow) ts
                  readGoal n (.flowMapping false ((k, .null) :: done)) rest

def document? (ts : List Lexeme) : Option Tree :=
  let size := 4 * ts.length + 4
  let afterStart : List Lexeme → Option (Tree × List Lexeme)
    | [] => some (.null, [])
    | .documentEnd :: rest => some (.null, .documentEnd :: rest)
    | .documentStart :: rest => some (.null, .documentStart :: rest)
    | ts => readGoal size (.node .block) ts
  let parsed :=
    match ts.dropWhile (· == .documentEnd) with
    | .documentStart :: rest => afterStart rest
    | [] => some (.null, [])
    | ts => readGoal size (.node .block) ts
  match parsed with
  | some (tree, rest) => if rest.all (· == .documentEnd) then some tree else none
  | none => none

/-- The tree of a text, which must be a string. -/
def tree? (text : Text) : Option Tree := do document? (← lexemes? (← text.string?).toList)

def read (text : Text) : Except Fault Node :=
  match tree? text with
  | some t => t.toNode
  | none => .error .malformed

end ReleaseGate.Yaml
