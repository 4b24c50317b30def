import ReleaseGate.Proofs.Condition.Lexemes
import ReleaseGate.Proofs.Json.Strings

/-!
Conditions written as text: `||` between terms, `&&` between comparisons, strings in any spelling of
JSON, numerals in digits of any script, and blanks wherever a token may have them. Parsing gives the
comparisons back, each at the offset of its identifier.
-/

namespace ReleaseGate

inductive Literal.Printed : Literal → List CodePoint → Prop
  | text {s : Text} {t : List CodePoint} : Json.Spells s.toList t →
      Printed (.text s) (Condition.quotation t)
  | flag (b : Bool) : Printed (.flag b) (Condition.keyword b)
  | number (n : Numeral) : Printed (.number n.value) n.text

namespace Condition

structure Gap where
  blanks : List CodePoint
  blank : ∀ c ∈ blanks, Text.isBlank c = true

/-- A comparison with the text of its literal and the blanks around its tokens. -/
structure Factor where
  signal : Signal
  operator : Operator
  literal : Literal
  spelling : List CodePoint
  printed : literal.Printed spelling
  before : Gap
  between : Gap
  behind : Gap
  after : Gap

def Factor.text (f : Factor) : List CodePoint :=
  f.before.blanks ++ f.signal.identifier.toList ++ f.between.blanks ++ f.operator.symbol.toList ++
    f.behind.blanks ++ f.spelling ++ f.after.blanks

def Factor.comparison (offset : Nat) (f : Factor) : Comparison :=
  ⟨f.signal.identifier, f.operator, f.literal, offset + f.before.blanks.length⟩

def termText (t : List Factor) : List CodePoint :=
  List.intercalate Connective.both.symbol.toList (t.map Factor.text)

def render (terms : List (List Factor)) : List CodePoint :=
  List.intercalate Connective.either.symbol.toList (terms.map termText)

def termAt (offset : Nat) : List Factor → List Comparison
  | [] => []
  | f :: t =>
      f.comparison offset :: termAt (offset + f.text.length + Connective.both.symbol.length) t

def termsAt (offset : Nat) : List (List Factor) → List (List Comparison)
  | [] => []
  | t :: ts =>
      termAt offset t ::
        termsAt (offset + (termText t).length + Connective.either.symbol.length) ts

/-- Whether a text is at its end or goes on with a connective. -/
def Links (rest : List CodePoint) : Prop := ∀ c ∈ rest.head?, c = '&' ∨ c = '|'

theorem Gap.breaks (g : Gap) {rest : List CodePoint} (breaks : Breaks rest) :
    Breaks (g.blanks ++ rest) := by
  cases h : g.blanks with
  | nil => exact breaks
  | cons c l =>
      rintro _ ⟨⟩
      exact breaks_of_isBlank (g.blank c (h ▸ List.mem_cons_self))

theorem links_nil : Links [] := fun _ none => nomatch none

theorem Links.breaks {rest : List CodePoint} (h : Links rest) : Breaks rest := by
  intro c hc
  obtain rfl | rfl := h c hc
  · decide
  · decide

theorem symbol_breaks (op : Operator) (rest : List CodePoint) :
    Breaks (op.symbol.toList ++ rest) := by
  cases op <;> (rintro _ ⟨⟩; decide)

theorem printed_unequal {v : Literal} {t : List CodePoint} (h : v.Printed t)
    (rest : List CodePoint) :
    ∀ c ∈ (t ++ rest).head?, c ≠ '=' := by
  cases h with
  | text _ =>
      rintro _ ⟨⟩
      decide
  | flag b =>
      cases b <;> (rintro _ ⟨⟩; decide)
  | number n =>
      obtain ⟨c, l, text, start⟩ := text_head n
      rw [text]
      rintro _ ⟨⟩
      obtain rfl | digit := start
      · decide
      · exact Text.isDecimalDigit_ne digit (by decide)

theorem Gap.unequal (g : Gap) {rest : List CodePoint} (free : ∀ c ∈ rest.head?, c ≠ '=') :
    ∀ c ∈ (g.blanks ++ rest).head?, c ≠ '=' := by
  cases h : g.blanks with
  | nil => exact free
  | cons c l =>
      have blank := g.blank c (h ▸ List.mem_cons_self)
      rintro _ ⟨⟩ rfl
      revert blank
      decide

theorem tokensFrom_literal {v : Literal} {t : List CodePoint} (h : v.Printed t) (position : Nat)
    {rest : List CodePoint} (breaks : Breaks rest) {later : List Token}
    (tail : tokensFrom (position + t.length) rest = .ok later) :
    tokensFrom position (t ++ rest) =
      .ok (⟨.literal v, Text.ofList t, position⟩ :: later) := by
  cases h with
  | text spells =>
      rw [tokensFrom_quotation position spells, tail, Text.ofList_toList]
      rfl
  | flag b =>
      rw [tokensFrom_keyword position b breaks, tail]
      rfl
  | number n =>
      rw [tokensFrom_numeral position n breaks, tail]
      rfl

structure Tells (c : Comparison) (name op lit : Token) : Prop where
  named : name.meaning = .identifier
  text : name.text = c.identifier
  place : name.position = c.position
  compares : op.meaning = .comparison c.operator
  literal : lit.meaning = .literal c.literal

/-- A rendered factor is cut into its three tokens, whatever blanks surround them. -/
theorem tokensFrom_factor (f : Factor) (position : Nat) {rest : List CodePoint} (links : Links rest)
    {later : List Token} (tail : tokensFrom (position + f.text.length) rest = .ok later) :
    ∃ name op lit, tokensFrom position (f.text ++ rest) = .ok (name :: op :: lit :: later) ∧
      Tells (f.comparison position) name op lit := by
  have offset : position + f.text.length = position + f.before.blanks.length +
      f.signal.identifier.toList.length + f.between.blanks.length +
      f.operator.symbol.toList.length + f.behind.blanks.length + f.spelling.length +
      f.after.blanks.length := by
    simp only [Factor.text, List.length_append]
    omega
  rw [offset, ← tokensFrom_blanks _ f.after.blank] at tail
  have literal := tokensFrom_literal f.printed _ (f.after.breaks links.breaks) tail
  rw [← tokensFrom_blanks _ f.behind.blank] at literal
  have operator := tokensFrom_operator (position + f.before.blanks.length +
      f.signal.identifier.toList.length + f.between.blanks.length) f.operator
    (f.behind.unequal (printed_unequal f.printed (f.after.blanks ++ rest)))
  rw [literal, ← tokensFrom_blanks _ f.between.blank] at operator
  have name := tokensFrom_name (position + f.before.blanks.length) (isName_identifier f.signal)
    (f.between.breaks (symbol_breaks f.operator
      (f.behind.blanks ++ (f.spelling ++ (f.after.blanks ++ rest)))))
  rw [operator, ← tokensFrom_blanks _ f.before.blank] at name
  rw [Text.ofList_toList] at name
  have text : f.text ++ rest = f.before.blanks ++ (f.signal.identifier.toList ++
      (f.between.blanks ++ (f.operator.symbol.toList ++ (f.behind.blanks ++ (f.spelling ++
        (f.after.blanks ++ rest)))))) := by
    simp only [Factor.text, List.append_assoc]
  rw [text]
  exact ⟨_, _, _, name, ⟨rfl, rfl, rfl, rfl, rfl⟩⟩

section

variable {size : Nat} {c : Comparison} {name op lit : Token}

/-- What may follow a term: nothing, or `||` and a sentence. -/
inductive Continues (size : Nat) : List Token → List (List Comparison) → Prop
  | ends : Continues size [] []
  | either {link : Token} {more : List Token} {terms : List (List Comparison)} :
      link.meaning = .connective .either → sentence Signal.identifiers size more = .ok terms →
        Continues size (link :: more) terms

theorem sentence_last (tells : Tells c name op lit) (known : c.identifier ∈ Signal.identifiers)
    {later : List Token} {terms : List (List Comparison)} (continues : Continues size later terms) :
    sentence Signal.identifiers size (name :: op :: lit :: later) = .ok ([c] :: terms) := by
  cases continues with
  | ends =>
      simp [sentence, tells.named, tells.text, known, tells.compares, tells.literal, tells.place]
  | either joins parsed =>
      simp [sentence, tells.named, tells.text, known, tells.compares, tells.literal, tells.place,
        joins, parsed, Except.map]

theorem sentence_both (tells : Tells c name op lit) (known : c.identifier ∈ Signal.identifiers)
    {link : Token} (joins : link.meaning = .connective .both) {more : List Token}
    {t : List Comparison} {terms : List (List Comparison)}
    (parsed : sentence Signal.identifiers size more = .ok (t :: terms)) :
    sentence Signal.identifiers size (name :: op :: lit :: link :: more) =
      .ok ((c :: t) :: terms) := by
  simp [sentence, tells.named, tells.text, known, tells.compares, tells.literal, tells.place, joins,
    parsed, Except.map, joinFirst]

theorem identifier_known (f : Factor) (offset : Nat) :
    (f.comparison offset).identifier ∈ Signal.identifiers := by
  have all : ∀ s : Signal, s.identifier ∈ Signal.identifiers := by
    intro s
    cases s <;> decide
  exact all f.signal

theorem termText_cons (f g : Factor) (t : List Factor) :
    termText (f :: g :: t) = f.text ++ Connective.both.symbol.toList ++ termText (g :: t) :=
  List.intercalate_cons_cons

theorem render_cons (t u : List Factor) (terms : List (List Factor)) :
    render (t :: u :: terms) = termText t ++ Connective.either.symbol.toList ++
      render (u :: terms) :=
  List.intercalate_cons_cons

theorem links_symbol (k : Connective) (rest : List CodePoint) :
    Links (k.symbol.toList ++ rest) := by
  cases k with
  | both =>
      rintro _ ⟨⟩
      exact .inl rfl
  | either =>
      rintro _ ⟨⟩
      exact .inr rfl

/-- What a term adds to the tokens and the terms of what follows it. -/
theorem tokensFrom_term {t : List Factor} (full : t ≠ []) (position : Nat) {rest : List CodePoint}
    (links : Links rest) {later : List Token} {terms : List (List Comparison)}
    (tail : tokensFrom (position + (termText t).length) rest = .ok later)
    (continues : Continues size later terms) :
    ∃ ts, tokensFrom position (termText t ++ rest) = .ok ts ∧
      sentence Signal.identifiers size ts = .ok (termAt position t :: terms) := by
  induction t generalizing position with
  | nil => exact absurd rfl full
  | cons f t ih =>
      cases t with
      | nil =>
          rw [termText, List.map_singleton, List.intercalate_singleton] at tail ⊢
          obtain ⟨name, op, lit, tokens, tells⟩ := tokensFrom_factor f position links tail
          exact ⟨_, tokens, sentence_last tells (identifier_known f position) continues⟩
      | cons g t =>
          have offset : position + (termText (f :: g :: t)).length =
              position + f.text.length + Connective.both.symbol.toList.length +
                (termText (g :: t)).length := by
            rw [termText_cons, List.length_append, List.length_append]
            omega
          rw [offset] at tail
          obtain ⟨more, read, parsed⟩ := ih (List.cons_ne_nil g t) _ tail
          have linked := tokensFrom_connective (position + f.text.length) .both
            (termText (g :: t) ++ rest)
          rw [read] at linked
          obtain ⟨name, op, lit, tokens, tells⟩ :=
            tokensFrom_factor f position (links_symbol .both _) linked
          let link : Token :=
            ⟨.connective .both, Connective.both.symbol, position + f.text.length⟩
          have joins : link.meaning = .connective .both := rfl
          refine ⟨_, ?_, sentence_both tells (identifier_known f position) joins parsed⟩
          rw [termText_cons, List.append_assoc, List.append_assoc, tokens]

/-- A rendering is cut into tokens that tell its terms. -/
theorem tokensFrom_render {terms : List (List Factor)} (present : terms ≠ [])
    (full : ∀ t ∈ terms, t ≠ []) (position : Nat) :
    ∃ ts, tokensFrom position (render terms) = .ok ts ∧
      sentence Signal.identifiers size ts = .ok (termsAt position terms) := by
  induction terms generalizing position with
  | nil => exact absurd rfl present
  | cons t terms ih =>
      have head := full t List.mem_cons_self
      cases terms with
      | nil =>
          have none : tokensFrom (position + (termText t).length) [] = .ok [] := by
            rw [tokensFrom]
          have last : Continues size [] [] := .ends
          have read := tokensFrom_term head position links_nil none last
          rw [List.append_nil] at read
          rwa [render, List.map_singleton, List.intercalate_singleton]
      | cons u terms =>
          obtain ⟨more, read, parsed⟩ := ih (List.cons_ne_nil u terms)
            (fun t ht => full t (List.mem_cons_of_mem _ ht))
            (position + (termText t).length + Connective.either.symbol.toList.length)
          have linked := tokensFrom_connective (position + (termText t).length) .either
            (render (u :: terms))
          rw [read] at linked
          rw [render_cons, List.append_assoc]
          exact tokensFrom_term head position (links_symbol .either _) linked (.either rfl parsed)

end

/-- A condition with its text parses to its comparisons, each at the offset of its identifier; and
the value of a numeral in it is the number that its text denotes. -/
theorem parse_render {terms : List (List Factor)} (present : terms ≠ [])
    (full : ∀ t ∈ terms, t ≠ []) :
    parse Signal.identifiers (Text.ofList (render terms)) =
      .ok ⟨Text.ofList (render terms), termsAt 0 terms⟩ ∧
    ∀ n : Numeral, Numeral.read? (Text.ofList n.text) = some n.value := by
  refine ⟨?_, Numeral.read?_text⟩
  have rendered : ∃ ts, tokensFrom 0 (render terms) = .ok ts ∧
      sentence Signal.identifiers (Text.ofList (render terms)).length ts =
        .ok (termsAt 0 terms) := tokensFrom_render present full 0
  obtain ⟨ts, tokens, parsed⟩ := rendered
  have read : tokenize (Text.ofList (render terms)) = .ok ts := by
    rw [tokenize, Text.toList_ofList, tokens]
  have some : ts ≠ [] := by
    rintro rfl
    cases parsed
  rw [parse_of_tokens read, if_neg some, parsed]
  rfl

def Gap.none : Gap := ⟨[], List.forall_mem_nil _⟩

def Gap.wide : Gap := ⟨[' ', '\t', '\u3000'], List.all_eq_true.1 (by decide)⟩

def marked : String := "\"&&\n\u00e9𝄞"

def signedHalf : Numeral :=
  ⟨true, ['0'], ['5', '\u0660'], by decide, List.all_eq_true.1 (by decide),
    List.all_eq_true.1 (by decide)⟩

def markedTerms : List (List Factor) :=
  [[⟨.ciStatus, .equal, .text marked, _, .text (Json.ascii_spells marked.toList), .none, .none,
    .none,
      .none⟩,
    ⟨.authChange, .notEqual, .flag true, _, .flag true, .wide, .none, .wide, .none⟩],
   [⟨.ciStatus, .less, .text marked, _, .text (Json.escaped_spells (Text.toList marked)), .none,
     .wide, .none,
      .wide⟩,
    ⟨.errorRate, .atLeast, _, _, .number signedHalf, .none, .none, .none, .none⟩]]

def markedSource : Text :=
  "ci.status==\"\\\"&&\\n\\u00e9\\ud834\\udd1e\"&& \t\u3000change.auth!= \t\u3000true" ++
    "||ci.status \t\u3000<\"\\\"&&\\n\u00e9𝄞\" \t\u3000&&canary.error_rate>=-0.5\u0660"

theorem parse_render_marked :
    (markedTerms ≠ [] ∧ ∀ t ∈ markedTerms, t ≠ []) ∧
    Text.ofList (render markedTerms) = markedSource ∧
    (termsAt 0 markedTerms).map (fun t => t.map Comparison.position) = [[0, 42], [64, 92]] ∧
    parse Signal.identifiers markedSource = .ok ⟨markedSource, termsAt 0 markedTerms⟩ := by
  have present : markedTerms ≠ [] := List.cons_ne_nil _ _
  have full : ∀ t ∈ markedTerms, t ≠ [] := by
    intro t ht
    rcases ht with _ | ⟨_, _ | ⟨_, ⟨⟩⟩⟩ <;> exact List.cons_ne_nil _ _
  have source : Text.ofList (render markedTerms) = markedSource := by decide +kernel
  have parsed := (parse_render present full).1
  rw [source] at parsed
  exact ⟨⟨present, full⟩, source, by decide +kernel, parsed⟩

end Condition

end ReleaseGate
