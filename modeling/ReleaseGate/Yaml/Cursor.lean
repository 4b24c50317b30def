/-!
A place in a YAML text: what is left of it, and the line and column that decide about structure.
-/

namespace ReleaseGate.Yaml

def isBreak (c : Char) : Bool :=
  c == '\n' || c == '\r' || c == '\u0085' || c == '\u2028' || c == '\u2029'

def isBlankOrBreak (c : Char) : Bool := c == ' ' || c == '\t' || isBreak c

structure Cursor where
  rest : List Char
  line : Nat
  column : Nat
  index : Nat

/-- The end of the text counts as blank. -/
def startsBlank : List Char → Bool
  | [] => true
  | c :: _ => isBlankOrBreak c

namespace Cursor

def next (c : Cursor) : Cursor :=
  match c.rest with
  | [] => c
  | ch :: rest =>
      if isBreak ch then ⟨rest, c.line + 1, 0, c.index + 1⟩
      else ⟨rest, c.line, c.column + 1, c.index + 1⟩

def skip : Nat → Cursor → Cursor
  | 0, c => c
  | n + 1, c => skip n c.next

def takeWhile (p : Char → Bool) (c : Cursor) : List Char × Cursor :=
  let cs := c.rest.takeWhile p
  (cs, c.skip cs.length)

def dropWhile (p : Char → Bool) (c : Cursor) : Cursor := (c.takeWhile p).2

def atDocumentMark (c : Cursor) : Bool :=
  c.column == 0 &&
    match c.rest with
    | '-' :: '-' :: '-' :: rest | '.' :: '.' :: '.' :: rest => startsBlank rest
    | _ => false

/-- The line break here, if there is one, and the place after it; all but the two separators of
Unicode read as a line feed. -/
def lineBreak (c : Cursor) : List Char × Cursor :=
  match c.rest with
  | '\r' :: '\n' :: _ => (['\n'], c.skip 2)
  | ch :: _ =>
      if ch == '\u2028' || ch == '\u2029' then ([ch], c.next)
      else if isBreak ch then (['\n'], c.next)
      else ([], c)
  | [] => ([], c)

def atBreak (c : Cursor) : Bool :=
  match c.rest with
  | ch :: _ => isBreak ch
  | [] => false

def atComment (c : Cursor) : Bool := c.rest.head? == some '#'

end Cursor

end ReleaseGate.Yaml
