import ReleaseGate.Json.Text
import ReleaseGate.Yaml.Cursor

/-!
The texts of scalars. Quoted and plain scalars fold line breaks: one becomes a space, of several the
first is dropped. Block scalars keep them (`|`) or fold them (`>`), and their mark says what happens
to the breaks at the end. The loops are bounded by the length of the text.
-/

namespace ReleaseGate.Yaml

/-- Breaks and blanks between two lines of a quoted scalar; a mark of a document must not come. -/
def quotedBreaks : Nat → Cursor → Option (List Char × Cursor)
  | 0, _ => none
  | n + 1, c =>
      if c.atDocumentMark then none
      else
        let c := c.dropWhile fun ch => ch == ' ' || ch == '\t'
        if c.atBreak then
          let (b, c) := c.lineBreak
          (quotedBreaks n c).map fun r => (b ++ r.1, r.2)
        else some ([], c)

/-- What a line break followed by further ones stands for. -/
def foldBreaks (first breaks : List Char) : List Char :=
  if first ≠ ['\n'] then first ++ breaks else if breaks.isEmpty then [' '] else breaks

def shortEscape? : Char → Option Char
  | '0' => some '\x00'
  | 'a' => some '\x07'
  | 'b' => some '\x08'
  | 't' | '\t' => some '\t'
  | 'n' => some '\n'
  | 'v' => some '\x0b'
  | 'f' => some '\x0c'
  | 'r' => some '\r'
  | 'e' => some '\x1b'
  | ' ' => some ' '
  | '"' => some '"'
  | '\\' => some '\\'
  | '/' => some '/'
  | 'N' => some '\u0085'
  | '_' => some '\u00a0'
  | 'L' => some '\u2028'
  | 'P' => some '\u2029'
  | _ => none

def hexWidth? : Char → Option Nat
  | 'x' => some 2
  | 'u' => some 4
  | 'U' => some 8
  | _ => none

def hexNumber? (ds : List Char) : Option Nat :=
  ds.foldlM (fun n (d : Char) => (Json.hexValue? d).map (16 * n + ·)) 0

def hexEscape? (width : Nat) (s : List Char) : Option CodePoint := do
  let ds := s.take width
  if ds.length < width then none
  let n ← hexNumber? ds
  if n < 0x110000 then some (.ofNat n) else none

def quotedFrom (double : Bool) : Nat → Cursor → Option (List CodePoint × Cursor)
  | 0, _ => none
  | n + 1, c =>
      match c.rest with
      | [] => none
      | ch :: rest =>
          if ch = '\x27' && !double then
            if rest.head? = some '\x27' then
              (quotedFrom double n (c.skip 2)).map fun r => ('\x27' :: r.1, r.2)
            else some ([], c.next)
          else if ch = '"' && double then some ([], c.next)
          else if ch = '\\' && double then
            match rest with
            | [] => none
            | e :: digits =>
                match shortEscape? e with
                | some d => (quotedFrom double n (c.skip 2)).map fun r => (d :: r.1, r.2)
                | none =>
                    match hexWidth? e with
                    | some width =>
                        match hexEscape? width digits with
                        | some d =>
                            (quotedFrom double n (c.skip (2 + width))).map fun r => (d :: r.1, r.2)
                        | none => none
                    | none =>
                        if isBreak e then
                          match quotedBreaks n c.next.lineBreak.2 with
                          | some (breaks, c) =>
                              (quotedFrom double n c).map fun r => (breaks.map .char ++ r.1, r.2)
                          | none => none
                        else none
          else if isBlankOrBreak ch then
            let (blanks, c) := c.takeWhile fun ch => ch == ' ' || ch == '\t'
            if c.rest.isEmpty then none
            else if c.atBreak then
              let (first, c) := c.lineBreak
              match quotedBreaks n c with
              | some (breaks, c) =>
                  (quotedFrom double n c).map fun r =>
                    ((foldBreaks first breaks).map .char ++ r.1, r.2)
              | none => none
            else (quotedFrom double n c).map fun r => (blanks.map .char ++ r.1, r.2)
          else (quotedFrom double n c.next).map fun r => (ch :: r.1, r.2)

def quoted (double : Bool) (c : Cursor) : Option (List CodePoint × Cursor) :=
  quotedFrom double (c.rest.length + 1) c.next

def isFlowMark (c : Char) : Bool :=
  c == ',' || c == '[' || c == ']' || c == '\x7b' || c == '\x7d'

/-- Whether a plain scalar goes on with this character, given what follows it. -/
def continuesPlain (inFlow : Bool) (ch : Char) (rest : List Char) : Bool :=
  if isBlankOrBreak ch then false
  else if ch = ':' then
    !(startsBlank rest || (inFlow && (rest.head?.map isFlowMark).getD false))
  else !(inFlow && (isFlowMark ch || ch == '?'))

/-- The length of the part of a plain scalar up to a blank or a mark. -/
def plainLength (inFlow : Bool) : List Char → Nat
  | [] => 0
  | ch :: rest => if continuesPlain inFlow ch rest then plainLength inFlow rest + 1 else 0

/-- Breaks and spaces between two lines of a plain scalar; nothing where a document ends. -/
def plainBreaks : Nat → Cursor → Option (List Char) × Cursor
  | 0, c => (none, c)
  | n + 1, c =>
      match c.rest with
      | ' ' :: _ => plainBreaks n c.next
      | _ =>
          if c.atBreak then
            let (b, c) := c.lineBreak
            if c.atDocumentMark then (none, c)
            else
              let (more, c) := plainBreaks n c
              (more.map (b ++ ·), c)
          else (some [], c)

/-- The space after a part of a plain scalar, as it counts inside the scalar; whether a line ended;
and the place after it. -/
def plainSpace (c : Cursor) : List Char × Bool × Cursor :=
  let (blanks, c) := c.takeWhile (· == ' ')
  if c.atBreak then
    let (first, c) := c.lineBreak
    if c.atDocumentMark then ([], true, c)
    else
      match plainBreaks (c.rest.length + 1) c with
      | (none, c) => ([], true, c)
      | (some breaks, c) => (foldBreaks first breaks, true, c)
  else (blanks, false, c)

/-- The rest of a plain scalar, after the given space; whether a line ended at its end; and the
place after it. Lines that go on must be indented by at least `indent`. -/
def plainFrom (inFlow : Bool) (indent : Int) (space : List Char) (ended : Bool) :
    Nat → Cursor → List Char × Bool × Cursor
  | 0, c => ([], ended, c)
  | n + 1, c =>
      let length := if c.atComment then 0 else plainLength inFlow c.rest
      if length = 0 then ([], ended, c)
      else
        let part := c.rest.take length
        let (space', ended', c') := plainSpace (c.skip length)
        if space'.isEmpty || c'.atComment || (!inFlow && c'.column < indent) then
          (space ++ part, ended', c')
        else
          let (more, last) := plainFrom inFlow indent space' ended' n c'
          (space ++ part ++ more, last)

/-- What becomes of the line breaks at the end of a block scalar. -/
inductive Chomping where
  | clip
  | strip
  | keep
  deriving DecidableEq

def chomping? : Char → Option Chomping
  | '+' => some .keep
  | '-' => some .strip
  | _ => none

def indentation? (c : Char) : Option Nat :=
  if '1' ≤ c ∧ c ≤ '9' then some (c.toNat - '0'.toNat) else none

def blockSigns (c : Cursor) : Chomping × Option Nat × Cursor :=
  match c.rest with
  | a :: rest =>
      match chomping? a, indentation? a with
      | some k, _ =>
          match rest.head?.bind indentation? with
          | some n => (k, some n, c.skip 2)
          | none => (k, none, c.next)
      | none, some n =>
          match rest.head?.bind chomping? with
          | some k => (k, some n, c.skip 2)
          | none => (.clip, some n, c.next)
      | none, none => (.clip, none, c)
  | [] => (.clip, none, c)

/-- The rest of the line with the mark of a block scalar: blanks and a comment only. -/
def blockHeadEnd (c : Cursor) : Option Cursor :=
  if !startsBlank c.rest then none
  else
    let c := c.dropWhile (· == ' ')
    let c := if c.atComment then c.dropWhile fun ch => !isBreak ch else c
    if c.rest.isEmpty || c.atBreak then some c.lineBreak.2 else none

/-- The breaks before the first line of a block scalar, and the greatest indentation among them. -/
def blockIndentation : Nat → Cursor → List Char × Nat × Cursor
  | 0, c => ([], 0, c)
  | n + 1, c =>
      match c.rest with
      | ' ' :: _ =>
          let (breaks, most, c') := blockIndentation n c.next
          (breaks, max most c.next.column, c')
      | _ =>
          if c.atBreak then
            let (b, c) := c.lineBreak
            let (breaks, most, c) := blockIndentation n c
            (b ++ breaks, most, c)
          else ([], 0, c)

def blockBreaks (indent : Nat) : Nat → Cursor → List Char × Cursor
  | 0, c => ([], c)
  | n + 1, c =>
      let spaces := (c.rest.take (indent - c.column)).takeWhile (· == ' ')
      let c := c.skip spaces.length
      if c.atBreak then
        let (b, c) := c.lineBreak
        let (breaks, c) := blockBreaks indent n c
        (b ++ breaks, c)
      else ([], c)

def startsWithBlank (c : Cursor) : Bool :=
  match c.rest with
  | ch :: _ => ch == ' ' || ch == '\t'
  | [] => false

def blockEnd (k : Chomping) (last breaks : List Char) : List Char :=
  match k with
  | .strip => []
  | .clip => last
  | .keep => last ++ breaks

/-- The lines of a block scalar from here on, after the given empty lines. -/
def blockLines (folded : Bool) (k : Chomping) (indent : Nat) (breaks : List Char) :
    Nat → Cursor → List Char × Cursor
  | 0, c => ([], c)
  | n + 1, c =>
      if c.column ≠ indent || c.rest.isEmpty then (blockEnd k [] breaks, c)
      else
        let plainStart := !startsWithBlank c
        let (line, c) := c.takeWhile fun ch => !isBreak ch
        let (last, c) := c.lineBreak
        let (more, c) := blockBreaks indent (c.rest.length + 1) c
        if c.column = indent && !c.rest.isEmpty then
          let joint :=
            if folded && last == ['\n'] && plainStart && !startsWithBlank c then
              if more.isEmpty then [' '] else []
            else last
          let (others, c) := blockLines folded k indent more n c
          (breaks ++ line ++ joint ++ others, c)
        else (breaks ++ line ++ blockEnd k last more, c)

def block (folded : Bool) (parent : Int) (c : Cursor) : Option (List Char × Cursor) := do
  let size := c.rest.length + 1
  let (k, increment, c) := blockSigns c.next
  let c ← blockHeadEnd c
  let least := max (parent + 1).toNat 1
  match increment with
  | some n =>
      let indent := least + n - 1
      let (breaks, c) := blockBreaks indent size c
      some (blockLines folded k indent breaks size c)
  | none =>
      let (breaks, most, c) := blockIndentation size c
      some (blockLines folded k (max least most) breaks size c)

end ReleaseGate.Yaml
