/-!
Texts as sequences of code points. An escape in a document can spell half of a surrogate pair by
itself, which is a code point but no character; so a text is a string, or strings with such halves
between them. Only a string has bytes in UTF-8.
-/

namespace ReleaseGate

/-- Half of a surrogate pair, counted from the first one, U+D800. -/
abbrev Surrogate := Fin 0x800

inductive CodePoint where
  | char (c : Char)
  | surrogate (u : Surrogate)
  deriving DecidableEq

namespace CodePoint

instance : Coe Char CodePoint := ⟨.char⟩

instance : Inhabited CodePoint := ⟨' '⟩

def toNat : CodePoint → Nat
  | .char c => c.toNat
  | .surrogate u => 0xD800 + u

/-- The code point of a number; what is no code point gives the null character. -/
def ofNat (n : Nat) : CodePoint :=
  if h : 0xD800 ≤ n ∧ n < 0xE000 then .surrogate ⟨n - 0xD800, by omega⟩ else Char.ofNat n

def char? : CodePoint → Option Char
  | .char c => some c
  | .surrogate _ => none

def isChar : CodePoint → Bool
  | .char _ => true
  | .surrogate _ => false

def map (f : Char → Char) : CodePoint → CodePoint
  | .char c => f c
  | .surrogate u => .surrogate u

instance : LT CodePoint := ⟨fun c d => c.toNat < d.toNat⟩

instance : LE CodePoint := ⟨fun c d => c.toNat ≤ d.toNat⟩

instance (c d : CodePoint) : Decidable (c < d) := inferInstanceAs (Decidable (c.toNat < d.toNat))

instance (c d : CodePoint) : Decidable (c ≤ d) := inferInstanceAs (Decidable (c.toNat ≤ d.toNat))

@[simp] theorem toNat_char (c : Char) : (char c).toNat = c.toNat := rfl

theorem toNat_injective {c d : CodePoint} (h : c.toNat = d.toNat) : c = d := by
  cases c with
  | char a =>
      cases d with
      | char b => exact congrArg char (Char.toNat_inj.1 h)
      | surrogate u =>
          have valid : a.toNat < 0xD800 ∨ 0xDFFF < a.toNat ∧ a.toNat < 0x110000 := a.valid
          simp only [toNat] at h
          omega
  | surrogate u =>
      cases d with
      | char b =>
          have valid : b.toNat < 0xD800 ∨ 0xDFFF < b.toNat ∧ b.toNat < 0x110000 := b.valid
          simp only [toNat] at h
          omega
      | surrogate v => exact congrArg surrogate (Fin.ext (Nat.add_left_cancel h))

theorem ofNat_toNat (c : CodePoint) : ofNat c.toNat = c := by
  cases c with
  | char a =>
      have valid : a.toNat < 0xD800 ∨ 0xDFFF < a.toNat ∧ a.toNat < 0x110000 := a.valid
      have ordinary : ¬ (0xD800 ≤ a.toNat ∧ a.toNat < 0xE000) := by omega
      simp [toNat, ofNat, ordinary]
  | surrogate u =>
      have within : 0xD800 ≤ 0xD800 + u.val ∧ 0xD800 + u.val < 0xE000 := by omega
      simp [toNat, ofNat, within]

end CodePoint

/-- A text: a string, or a string, half a surrogate pair and the text behind it. -/
inductive Text where
  | plain (s : String)
  | lone (before : String) (u : Surrogate) (after : Text)
  deriving DecidableEq

namespace Text

instance : Coe String Text := ⟨.plain⟩

instance : Inhabited Text := ⟨""⟩

def toList : Text → List CodePoint
  | .plain s => s.toList.map .char
  | .lone s u rest => s.toList.map .char ++ .surrogate u :: rest.toList

/-- The text of some code points behind a run of characters, which comes last one first. -/
def ofRun (run : List Char) : List CodePoint → Text
  | [] => .plain (String.ofList run.reverse)
  | .char c :: rest => ofRun (c :: run) rest
  | .surrogate u :: rest => .lone (String.ofList run.reverse) u (ofRun [] rest)

def ofList (s : List CodePoint) : Text := ofRun [] s

def singleton (c : CodePoint) : Text := ofList [c]

def length (t : Text) : Nat := t.toList.length

def append : Text → Text → Text
  | .plain s, .plain t => .plain (s ++ t)
  | .plain s, .lone t u rest => .lone (s ++ t) u rest
  | .lone s u rest, t => .lone s u (rest.append t)

instance : Append Text := ⟨append⟩

def intercalate (between : Text) : List Text → Text
  | [] => ""
  | [t] => t
  | t :: ts => t ++ (between ++ intercalate between ts)

/-- The string that a text is, if all of its code points are characters. -/
def string? : Text → Option String
  | .plain s => some s
  | .lone _ _ _ => none

def isString (t : Text) : Bool := t.string?.isSome

/-- Texts go by their code points. -/
instance : LT Text := ⟨fun s t => s.toList < t.toList⟩

@[simp] theorem toList_plain (s : String) : toList s = s.toList.map .char := rfl

theorem toList_ofRun (run : List Char) (s : List CodePoint) :
    (ofRun run s).toList = run.reverse.map .char ++ s := by
  fun_induction ofRun run s with
  | case1 run => simp
  | case2 run c rest ih => simp [ih]
  | case3 run u rest ih => simp [toList, ih]

@[simp] theorem toList_ofList (s : List CodePoint) : (ofList s).toList = s := toList_ofRun [] s

theorem ofRun_append (run front : List Char) (s : List CodePoint) :
    ofRun run (front.map .char ++ s) = ofRun (front.reverse ++ run) s := by
  induction front generalizing run with
  | nil => rfl
  | cons c front ih => simp [ofRun, ih]

@[simp] theorem ofList_toList (t : Text) : ofList t.toList = t := by
  induction t with
  | plain s =>
      have run := ofRun_append [] s.toList []
      simpa [ofList, ofRun] using run
  | lone s u rest ih =>
      have tail : ofRun [] rest.toList = rest := ih
      rw [ofList, toList, ofRun_append, ofRun, tail]
      simp

theorem toList_inj {s t : Text} : s.toList = t.toList ↔ s = t := by
  refine ⟨fun h => ?_, fun h => by rw [h]⟩
  rw [← ofList_toList s, h, ofList_toList]

@[ext] theorem ext {s t : Text} (h : s.toList = t.toList) : s = t := toList_inj.1 h

@[simp] theorem ofList_inj {s t : List CodePoint} : ofList s = ofList t ↔ s = t := by
  refine ⟨fun h => ?_, fun h => by rw [h]⟩
  rw [← toList_ofList s, h, toList_ofList]

@[simp] theorem toList_append (s t : Text) : (s ++ t).toList = s.toList ++ t.toList := by
  change (append s t).toList = _
  fun_induction append s t with
  | case1 s t => simp
  | case2 s t u rest => simp [toList]
  | case3 s u rest t ih => simp [toList, ih]

theorem append_assoc (s t u : Text) : s ++ t ++ u = s ++ (t ++ u) := by
  ext1
  simp

@[simp] theorem plain_append_plain (s t : String) : (s : Text) ++ (t : Text) = ↑(s ++ t) := rfl

@[simp] theorem ofList_map_char (s : List Char) : ofList (s.map .char) = ↑(String.ofList s) := by
  ext1
  simp

@[simp] theorem toList_singleton (c : CodePoint) : (singleton c).toList = [c] := toList_ofList _

theorem length_toList (t : Text) : t.toList.length = t.length := rfl

@[simp] theorem length_ofList (s : List CodePoint) : (ofList s).length = s.length := by
  rw [length, toList_ofList]

theorem char_lt_char {c d : Char} : CodePoint.char c < CodePoint.char d ↔ c < d := Iff.rfl

/-- Strings are in the same order as texts. -/
theorem plain_lt_plain {s t : String} : (s : Text) < (t : Text) ↔ s < t := by
  change s.toList.map CodePoint.char < t.toList.map CodePoint.char ↔ s.toList < t.toList
  generalize s.toList = s, t.toList = t
  induction s generalizing t with
  | nil => cases t <;> simp
  | cons c s ih =>
      cases t with
      | nil => simp
      | cons d t =>
          rw [List.map_cons, List.map_cons, List.cons_lt_cons_iff, List.cons_lt_cons_iff, ih,
            CodePoint.char.injEq, char_lt_char]

instance : (s t : Text) → Decidable (s < t)
  | .plain s, .plain t => decidable_of_iff (s < t) plain_lt_plain.symm
  | s, t => inferInstanceAs (Decidable (s.toList < t.toList))

theorem isString_iff {t : Text} : t.isString = true ↔ ∃ s : String, t = s := by
  cases t <;> simp [isString, string?]

theorem isString_eq_all (t : Text) : t.isString = t.toList.all CodePoint.isChar := by
  cases t with
  | plain s => simp [isString, string?, CodePoint.isChar]
  | lone before u after => simp [isString, string?, toList, CodePoint.isChar]

@[simp] theorem isString_plain (s : String) : isString s = true := rfl

@[simp] theorem isString_ofList (s : List CodePoint) :
    (ofList s).isString = s.all CodePoint.isChar := by
  rw [isString_eq_all, toList_ofList]

@[simp] theorem isString_append (s t : Text) :
    (s ++ t).isString = (s.isString && t.isString) := by
  simp only [isString_eq_all, toList_append, List.all_append]

end Text

end ReleaseGate
