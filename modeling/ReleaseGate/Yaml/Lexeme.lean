import ReleaseGate.Yaml.Scalar

/-!
Lexemes of YAML text. Indentation becomes lexemes of its own: a block opens where an entry or a key
stands further right than the open blocks and closes where the text comes back to the left. That a
scalar or a flow collection is a key shows only at the colon after it, so its place is remembered
and the lexemes for the key are put there later.
-/

namespace ReleaseGate.Yaml

inductive Lexeme where
  | documentStart
  | documentEnd
  | blockSequence
  | blockMapping
  | blockEnd
  | openSequence
  | closeSequence
  | openMapping
  | closeMapping
  /-- The dash of a block sequence. -/
  | entry
  | comma
  | key
  | value
  /-- A scalar that is a text. -/
  | scalar (text : Text)
  /-- A scalar that is still to be resolved. -/
  | plain (text : String)
  deriving DecidableEq

/-- Where a key may have started: the number of lexemes before it, its position, and whether it must
turn out to be a key. -/
structure KeyMark where
  before : Nat
  line : Nat
  column : Nat
  index : Nat
  required : Bool

structure Scanner where
  cursor : Cursor
  /-- How many flow collections are open. -/
  depth : Nat
  indent : Int
  outer : List Int
  keyAllowed : Bool
  /-- The possible key at each depth. -/
  marks : List (Nat × KeyMark)
  lexemes : List Lexeme

namespace Scanner

def start (text : List Char) : Scanner :=
  ⟨⟨text, 0, 0, 0⟩, 0, -1, [], true, [], []⟩

def emit (s : Scanner) (t : Lexeme) : Scanner := { s with lexemes := s.lexemes ++ [t] }

def insert (s : Scanner) (place : Nat) (t : Lexeme) : Scanner :=
  { s with lexemes := s.lexemes.take place ++ t :: s.lexemes.drop place }

def unwind (column : Int) (s : Scanner) : Scanner :=
  if s.depth ≠ 0 then s
  else go s.outer s
where
  go : List Int → Scanner → Scanner
    | [], s => s
    | i :: outer, s =>
        if column < s.indent then go outer (emit { s with indent := i, outer := outer } .blockEnd)
        else s

/-- Opens a block at a column unless one is open there. -/
def openBlock? (column : Int) (s : Scanner) : Option Scanner :=
  if s.indent < column then some { s with indent := column, outer := s.indent :: s.outer }
  else none

/-- Gives up the possible key at this depth, which must not be a required one. -/
def dropMark (s : Scanner) : Option Scanner :=
  match s.marks.lookup s.depth with
  | some m =>
      if m.required then none
      else some { s with marks := s.marks.filter fun e => e.1 != s.depth }
  | none => some s

def saveMark (s : Scanner) : Option Scanner :=
  if s.keyAllowed then do
    let s ← s.dropMark
    let c := s.cursor
    let required := s.depth = 0 && s.indent == (c.column : Int)
    return { s with
      marks := (s.depth, ⟨s.lexemes.length, c.line, c.column, c.index, required⟩) :: s.marks }
  else some s

/-- A key is on one line and not too far back. -/
def isStale (s : Scanner) (m : KeyMark) : Bool :=
  m.line != s.cursor.line || m.index + 1024 < s.cursor.index

def dropStale (s : Scanner) : Option Scanner :=
  if s.marks.any fun e => s.isStale e.2 && e.2.required then none
  else some { s with marks := s.marks.filter fun e => !s.isStale e.2 }

def skipSpace : Nat → Scanner → Scanner
  | 0, s => s
  | n + 1, s =>
      let c := s.cursor.dropWhile (· == ' ')
      let c := if c.atComment then c.dropWhile fun ch => !isBreak ch else c
      if c.atBreak then
        skipSpace n
          { s with cursor := c.lineBreak.2, keyAllowed := s.keyAllowed || s.depth == 0 }
      else { s with cursor := c }

def advance (n : Nat) (s : Scanner) : Scanner := { s with cursor := s.cursor.skip n }

def documentMark (t : Lexeme) (s : Scanner) : Option Scanner := do
  let s ← (s.unwind (-1)).dropMark
  return ({ s with keyAllowed := false }.emit t).advance 3

def openFlow (t : Lexeme) (s : Scanner) : Option Scanner := do
  let s ← s.saveMark
  return ({ s with depth := s.depth + 1, keyAllowed := true }.emit t).advance 1

def closeFlow (t : Lexeme) (s : Scanner) : Option Scanner := do
  let s ← s.dropMark
  return ({ s with depth := s.depth - 1, keyAllowed := false }.emit t).advance 1

def flowComma (s : Scanner) : Option Scanner := do
  let s ← s.dropMark
  return ({ s with keyAllowed := true }.emit .comma).advance 1

/-- Opens a block at the cursor, outside flow collections and where a line may start one. -/
def blockHere (t : Lexeme) (s : Scanner) : Option Scanner :=
  if s.depth ≠ 0 then some s
  else if !s.keyAllowed then none
  else
    match s.openBlock? s.cursor.column with
    | some s => some (s.emit t)
    | none => some s

def blockEntry (s : Scanner) : Option Scanner := do
  let s ← s.blockHere .blockSequence
  let s ← s.dropMark
  return ({ s with keyAllowed := true }.emit .entry).advance 1

def explicitKey (s : Scanner) : Option Scanner := do
  let s ← s.blockHere .blockMapping
  let s ← s.dropMark
  return ({ s with keyAllowed := s.depth == 0 }.emit .key).advance 1

/-- A colon: what was remembered as a possible key is one. -/
def colon (s : Scanner) : Option Scanner :=
  match s.marks.lookup s.depth with
  | some m =>
      let s := { s with marks := s.marks.filter fun e => e.1 != s.depth }
      let s := s.insert m.before .key
      let s :=
        if s.depth = 0 then
          match s.openBlock? m.column with
          | some s => s.insert m.before .blockMapping
          | none => s
        else s
      some (({ s with keyAllowed := false }.emit .value).advance 1)
  | none => do
      let s ← s.blockHere .blockMapping
      let s ← s.dropMark
      return ({ s with keyAllowed := s.depth == 0 }.emit .value).advance 1

def quotedScalar (double : Bool) (s : Scanner) : Option Scanner := do
  let s ← s.saveMark
  let (text, c) ← quoted double s.cursor
  return { s with cursor := c, keyAllowed := false }.emit (.scalar (.ofList text))

def blockScalar (folded : Bool) (s : Scanner) : Option Scanner := do
  let s ← s.dropMark
  let (text, c) ← block folded s.indent s.cursor
  return { s with cursor := c, keyAllowed := true }.emit (.scalar (String.ofList text))

def plainScalar (s : Scanner) : Option Scanner := do
  let s ← s.saveMark
  let (text, ended, c) :=
    plainFrom (s.depth != 0) (s.indent + 1) [] false (s.cursor.rest.length + 1) s.cursor
  return { s with cursor := c, keyAllowed := ended }.emit (.plain (String.ofList text))

/-- The characters that cannot by themselves start a plain scalar. -/
def indicators : List Char := "-?:,[]\x7b\x7d#&*!|>\x27\"%@\x60".toList

def startsPlain (inFlow : Bool) (ch : Char) (rest : List Char) : Bool :=
  if isBlankOrBreak ch then false
  else if !indicators.contains ch then true
  else !startsBlank rest && (ch == '-' || (!inFlow && (ch == '?' || ch == ':')))

/-- The lexeme that starts with a character, given what follows it. Anchors, aliases, tags and
directives are no part of policy files. -/
def dispatch (s : Scanner) (ch : Char) (rest : List Char) : Option Scanner :=
  let inFlow := s.depth != 0
  if s.cursor.atDocumentMark then
    s.documentMark (if ch = '-' then .documentStart else .documentEnd)
  else if ch = '[' then s.openFlow .openSequence
  else if ch = '\x7b' then s.openFlow .openMapping
  else if ch = ']' then s.closeFlow .closeSequence
  else if ch = '\x7d' then s.closeFlow .closeMapping
  else if ch = ',' then s.flowComma
  else if ch = '-' && startsBlank rest then s.blockEntry
  else if ch = '?' && (inFlow || startsBlank rest) then s.explicitKey
  else if ch = ':' && (inFlow || startsBlank rest) then s.colon
  else if ch = '|' && !inFlow then s.blockScalar false
  else if ch = '>' && !inFlow then s.blockScalar true
  else if ch = '\x27' then s.quotedScalar false
  else if ch = '"' then s.quotedScalar true
  else if startsPlain inFlow ch rest then s.plainScalar
  else none

/-- The lexemes of the rest of a text; nothing where it is malformed. Each step takes at least one
character. -/
def scan : Nat → Scanner → Option (List Lexeme)
  | 0, _ => none
  | n + 1, s => do
      let s := s.skipSpace (s.cursor.rest.length + 1)
      let s ← s.dropStale
      let s := s.unwind s.cursor.column
      match s.cursor.rest with
      | [] => do
          let s ← (s.unwind (-1)).dropMark
          return s.lexemes
      | ch :: rest => do
          let s ← s.dispatch ch rest
          scan n s

end Scanner

def isAllowed (c : Char) : Bool :=
  c == '\t' || c == '\n' || c == '\r' || (' ' ≤ c && c ≤ '~') || c == '\u0085' ||
    ('\u00a0' ≤ c && c ≤ '\ufffd') || 0x10000 ≤ c.toNat

def lexemes? (text : List Char) : Option (List Lexeme) :=
  if !text.all isAllowed then none
  else
    match text with
    | '\ufeff' :: rest => Scanner.scan (rest.length + 2) (Scanner.start rest)
    | _ => Scanner.scan (text.length + 2) (Scanner.start text)

end ReleaseGate.Yaml
