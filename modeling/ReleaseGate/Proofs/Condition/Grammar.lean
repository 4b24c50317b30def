import Mathlib.Data.List.Forall2
import ReleaseGate.Proofs.Condition.Mentions

/-!
The grammar of conditions, said without the parser. A sentence is a comparison, or a comparison that
is joined to a sentence; it is read by cutting it at `||` and then at `&&`. The parser accepts the
sentences and nothing else, reads them in this way, and otherwise points at the first token that no
sentence has in its place.
-/

namespace ReleaseGate

def Connective.symbol : Connective → Text
  | .both => "&&"
  | .either => "||"

namespace Condition

def Class.symbol? : Class → Option Text
  | .comparison op => some op.symbol
  | .connective k => some k.symbol
  | _ => none

def Meaning.symbol? : Meaning → Option Text
  | .comparison op => some op.symbol
  | .connective k => some k.symbol
  | _ => none

def Token.Spelled (t : Token) : Prop := ∀ s ∈ t.meaning.symbol?, t.text = s

theorem operatorAt?_symbol {s : List CodePoint} {op : Operator} {n : Nat}
    (h : operatorAt? s = some (op, n)) : Text.ofList (s.take n) = op.symbol := by
  unfold operatorAt? at h
  split at h <;> cases h <;> rfl

theorem connectiveAt?_symbol {s : List CodePoint} {k : Connective} {n : Nat}
    (h : connectiveAt? s = some (k, n)) : Text.ofList (s.take n) = k.symbol := by
  unfold connectiveAt? at h
  split at h <;> cases h <;> rfl

theorem classify?_symbol {s : List CodePoint} {k : Class} {n : Nat}
    (h : classify? s = some (k, n)) :
    ∀ symbol ∈ k.symbol?, Text.ofList (s.take n) = symbol := by
  cases firstLexeme_of_classify? h with
  | comparison operator =>
      rintro _ ⟨⟩
      exact operatorAt?_symbol operator
  | connective _ connective =>
      rintro _ ⟨⟩
      exact connectiveAt?_symbol connective
  | blank | string | boolean | number | identifier => exact fun _ none => nomatch none

theorem meaning_symbol {k : Class} {lexeme : List CodePoint} {m : Meaning}
    (h : meaning k lexeme = .ok (some m)) : m.symbol? = k.symbol? := by
  cases k with
  | string =>
      simp only [meaning] at h
      split at h <;> cases h
      rfl
  | blank | comparison _ | connective _ | boolean _ | number | identifier =>
      cases h
      all_goals rfl

/-- The token of an operator or a connective carries its characters. -/
theorem tokensFrom_spelled {position : Nat} {s : List CodePoint} {ts : List Token}
    (h : tokensFrom position s = .ok ts) : ∀ t ∈ ts, t.Spelled := by
  fun_induction tokensFrom position s generalizing ts with
  | case1 =>
      cases h
      exact List.forall_mem_nil _
  | case2 | case3 => cases h
  | case4 position c rest k n head lexeme m means =>
      rename_i ih
      obtain ⟨later, tail, rfl⟩ := map_eq_ok h
      cases m with
      | none => exact ih tail
      | some m =>
          refine List.forall_mem_cons.2 ⟨fun symbol named => ?_, ih tail⟩
          exact classify?_symbol head symbol (meaning_symbol means ▸ named)

/-- Three tokens that make a comparison: an allowed identifier, an operator and a literal. -/
structure IsFactor (allowed : List Text) (name op lit : Token) : Prop where
  named : name.meaning = .identifier
  known : name.text ∈ allowed
  compares : ∃ operator, op.meaning = .comparison operator
  literal : ∃ v, lit.meaning = .literal v

inductive Sentence (allowed : List Text) : List Token → Prop
  | factor {name op lit : Token} : IsFactor allowed name op lit → Sentence allowed [name, op, lit]
  | joined {name op lit link : Token} {k : Connective} {rest : List Token} :
      IsFactor allowed name op lit → link.meaning = .connective k → Sentence allowed rest →
        Sentence allowed (name :: op :: lit :: link :: rest)

/-- Tokens that some sentence begins with. -/
def Viable (allowed : List Text) (ts : List Token) : Prop :=
  ∃ more, Sentence allowed (ts ++ more)

/-- Where the tokens of a text of `size` characters leave the grammar: at the first one that no
sentence has in its place, or behind all of them if they only begin a sentence. -/
inductive LeavesAt (allowed : List Text) (size : Nat) : List Token → Nat → Prop
  | token (before : List Token) {after : List Token} {t : Token} : Viable allowed before →
      ¬ Viable allowed (before ++ [t]) → LeavesAt allowed size (before ++ t :: after) t.position
  | ended {ts : List Token} : Viable allowed ts → ¬ Sentence allowed ts →
      LeavesAt allowed size ts size

def Token.joins (k : Connective) (t : Token) : Bool := t.meaning = .connective k

def factors (ts : List Token) : List (List (List Token)) :=
  (ts.splitOnP (Token.joins .either)).map fun t => t.splitOnP (Token.joins .both)

def Spells (f : List Token) (c : Comparison) : Prop :=
  ∃ name op lit, f = [name, op, lit] ∧ c.identifier = name.text ∧ c.position = name.position ∧
    op.text = c.operator.symbol ∧ lit.meaning = .literal c.literal

section

variable {allowed : List Text} {name op lit link : Token}

theorem IsFactor.joins (h : IsFactor allowed name op lit) (k : Connective) :
    name.joins k = false ∧ op.joins k = false ∧ lit.joins k = false := by
  obtain ⟨operator, compares⟩ := h.compares
  obtain ⟨v, literal⟩ := h.literal
  simp [Token.joins, h.named, compares, literal]

theorem factors_factor (h : IsFactor allowed name op lit) :
    factors [name, op, lit] = [[[name, op, lit]]] := by
  simp [factors, List.splitOnP_cons_eq_if_modifyHead, h.joins]

/-- A factor before `||` closes its term. -/
theorem factors_either (h : IsFactor allowed name op lit)
    (joins : link.meaning = .connective .either) (rest : List Token) :
    factors (name :: op :: lit :: link :: rest) = [[name, op, lit]] :: factors rest := by
  have cut : link.joins .either = true := by simp [Token.joins, joins]
  simp [factors, List.splitOnP_cons_eq_if_modifyHead, h.joins, cut]

/-- A factor before `&&` stays in the term of the next one. -/
theorem factors_both (h : IsFactor allowed name op lit)
    (joins : link.meaning = .connective .both) (rest : List Token) :
    factors (name :: op :: lit :: link :: rest) =
      (factors rest).modifyHead ([name, op, lit] :: ·) := by
  have cut : link.joins .both = true := by simp [Token.joins, joins]
  have kept : link.joins .either = false := by simp [Token.joins, joins]
  obtain ⟨first, others, terms⟩ :=
    List.exists_cons_of_ne_nil (List.splitOnP_ne_nil (Token.joins .either) rest)
  simp [factors, List.splitOnP_cons_eq_if_modifyHead, h.joins, cut, kept, terms]

theorem factors_ne_nil (ts : List Token) : factors ts ≠ [] :=
  fun none => List.splitOnP_ne_nil _ ts (List.map_eq_nil_iff.1 none)

theorem joinFirst_spells {f : List Token} {c : Comparison} (first : Spells f c)
    {cut : List (List (List Token))} {terms : List (List Comparison)} (some : cut ≠ [])
    (later : List.Forall₂ (List.Forall₂ Spells) cut terms) :
    List.Forall₂ (List.Forall₂ Spells) (cut.modifyHead (f :: ·)) (joinFirst c terms) := by
  cases later with
  | nil => exact absurd rfl some
  | cons head tail => exact .cons (.cons first head) tail

def anOperator : Token := ⟨.comparison .equal, Operator.equal.symbol, 0⟩

def aLiteral : Token := ⟨.literal (.flag true), "true", 0⟩

theorem viable_name (named : name.meaning = .identifier) (known : name.text ∈ allowed) :
    Viable allowed [name] :=
  ⟨[anOperator, aLiteral], .factor ⟨named, known, ⟨_, rfl⟩, _, rfl⟩⟩

theorem viable_operator (named : name.meaning = .identifier) (known : name.text ∈ allowed)
    {operator : Operator} (compares : op.meaning = .comparison operator) :
    Viable allowed [name, op] :=
  ⟨[aLiteral], .factor ⟨named, known, ⟨_, compares⟩, _, rfl⟩⟩

theorem IsFactor.viable (h : IsFactor allowed name op lit) : Viable allowed [name, op, lit] :=
  ⟨[], .factor h⟩

theorem viable_nil (some : allowed ≠ []) : Viable allowed [] := by
  obtain ⟨text, others, rfl⟩ := List.exists_cons_of_ne_nil some
  have begun : Viable (text :: others) [⟨.identifier, text, 0⟩] :=
    viable_name rfl List.mem_cons_self
  obtain ⟨more, sentence⟩ := begun
  exact ⟨_, sentence⟩

theorem sentence_factor {ts : List Token} (h : Sentence allowed (name :: ts)) :
    ∃ op lit rest, ts = op :: lit :: rest ∧ IsFactor allowed name op lit ∧
      ∀ t ∈ rest.head?, ∃ k, t.meaning = .connective k := by
  cases h with
  | factor factor => exact ⟨_, _, [], rfl, factor, fun _ none => nomatch none⟩
  | joined factor joins _ =>
      refine ⟨_, _, _, rfl, factor, ?_⟩
      rintro _ ⟨⟩
      exact ⟨_, joins⟩

theorem not_sentence_short {ts : List Token} (short : ts.length < 3) : ¬ Sentence allowed ts := by
  intro sentence
  cases sentence with
  | factor _ => exact absurd short (by simp)
  | joined _ _ _ => exact absurd short (by simp)

theorem not_viable_name (other : ¬ (name.meaning = .identifier ∧ name.text ∈ allowed)) :
    ¬ Viable allowed [name] := by
  rintro ⟨more, sentence⟩
  obtain ⟨_, _, _, -, factor, -⟩ := sentence_factor sentence
  exact other ⟨factor.named, factor.known⟩

theorem not_viable_operator (other : ∀ operator, op.meaning ≠ .comparison operator) :
    ¬ Viable allowed [name, op] := by
  rintro ⟨more, sentence⟩
  obtain ⟨_, _, _, same, factor, -⟩ := sentence_factor sentence
  cases same
  obtain ⟨operator, compares⟩ := factor.compares
  exact other operator compares

theorem not_viable_literal (other : ∀ v, lit.meaning ≠ .literal v) :
    ¬ Viable allowed [name, op, lit] := by
  rintro ⟨more, sentence⟩
  obtain ⟨_, _, _, same, factor, -⟩ := sentence_factor sentence
  cases same
  obtain ⟨v, literal⟩ := factor.literal
  exact other v literal

theorem not_viable_link (other : ∀ k, link.meaning ≠ .connective k) :
    ¬ Viable allowed [name, op, lit, link] := by
  rintro ⟨more, sentence⟩
  obtain ⟨_, _, _, same, -, joins⟩ := sentence_factor sentence
  cases same
  obtain ⟨k, joined⟩ := joins link rfl
  exact other k joined

/-- Behind a factor and a connective the rest is a sentence of its own. -/
theorem sentence_joined_iff (h : IsFactor allowed name op lit) {k : Connective}
    (joins : link.meaning = .connective k) {rest : List Token} :
    Sentence allowed (name :: op :: lit :: link :: rest) ↔ Sentence allowed rest := by
  constructor
  · intro sentence
    cases sentence with
    | joined _ _ rest => exact rest
  · exact .joined h joins

theorem viable_joined_iff (h : IsFactor allowed name op lit) {k : Connective}
    (joins : link.meaning = .connective k) {rest : List Token} :
    Viable allowed (name :: op :: lit :: link :: rest) ↔ Viable allowed rest :=
  exists_congr fun _ => sentence_joined_iff h joins

theorem LeavesAt.joined (h : IsFactor allowed name op lit) {k : Connective}
    (joins : link.meaning = .connective k) {size position : Nat} {rest : List Token}
    (leaves : LeavesAt allowed size rest position) :
    LeavesAt allowed size (name :: op :: lit :: link :: rest) position := by
  cases leaves with
  | token start before leaves =>
      refine .token (name :: op :: lit :: link :: start) ?_ ?_
      · exact (viable_joined_iff h joins).2 before
      · exact fun viable => leaves ((viable_joined_iff h joins).1 viable)
  | ended viable incomplete =>
      exact .ended ((viable_joined_iff h joins).2 viable)
        fun sentence => incomplete ((sentence_joined_iff h joins).1 sentence)

variable {size : Nat} {ts : List Token}

/-- Three tokens that passed the checks of the parser. -/
theorem isFactor_of_passed {operator : Operator} {v : Literal}
    (named : ¬ name.meaning ≠ .identifier) (known : ¬ name.text ∉ allowed)
    (compares : op.meaning = .comparison operator) (literal : lit.meaning = .literal v) :
    IsFactor allowed name op lit :=
  ⟨Decidable.not_not.1 named, Decidable.not_not.1 known, ⟨_, compares⟩, _, literal⟩

theorem spells_of_spelled {operator : Operator} {v : Literal} (spelled : op.Spelled)
    (compares : op.meaning = .comparison operator) (literal : lit.meaning = .literal v) :
    Spells [name, op, lit] ⟨name.text, operator, v, name.position⟩ :=
  ⟨name, op, lit, rfl, rfl, rfl, spelled _ (by rw [compares]; rfl), literal⟩

/-- What the parser accepts is a sentence, and its terms say what the tokens spell. -/
theorem sentence_sound {terms : List (List Comparison)} (h : sentence allowed size ts = .ok terms) :
    Sentence allowed ts ∧ ((∀ t ∈ ts, t.Spelled) →
      List.Forall₂ (List.Forall₂ Spells) (factors ts) terms) := by
  fun_induction sentence allowed size ts generalizing terms with
  | case6 name named known op operator compares lit v literal =>
      cases h
      have factor := isFactor_of_passed named known compares literal
      refine ⟨.factor factor, fun spelled => ?_⟩
      rw [factors_factor factor]
      exact .cons (.cons (spells_of_spelled (spelled op (by simp)) compares literal) .nil) .nil
  | case7 name named known op operator compares lit v literal c next rest joins =>
      rename_i ih
      obtain ⟨later, parsed, rfl⟩ := map_eq_ok h
      obtain ⟨sentence, spells⟩ := ih parsed
      have factor := isFactor_of_passed named known compares literal
      refine ⟨.joined factor joins sentence, fun spelled => ?_⟩
      rw [factors_both factor joins]
      exact joinFirst_spells (spells_of_spelled (spelled op (by simp)) compares literal)
        (factors_ne_nil rest) (spells fun t ht => spelled t (by simp [ht]))
  | case8 name named known op operator compares lit v literal c next rest joins =>
      rename_i ih
      obtain ⟨later, parsed, rfl⟩ := map_eq_ok h
      obtain ⟨sentence, spells⟩ := ih parsed
      have factor := isFactor_of_passed named known compares literal
      refine ⟨.joined factor joins sentence, fun spelled => ?_⟩
      rw [factors_either factor joins]
      exact .cons (.cons (spells_of_spelled (spelled op (by simp)) compares literal) .nil)
        (spells fun t ht => spelled t (by simp [ht]))
  | _ => cases h

/-- Every sentence is accepted. -/
theorem sentence_complete (h : Sentence allowed ts) (size : Nat) :
    ∃ terms, sentence allowed size ts = .ok terms := by
  induction h with
  | factor factor =>
      obtain ⟨operator, compares⟩ := factor.compares
      obtain ⟨v, literal⟩ := factor.literal
      simp [sentence, factor.named, factor.known, compares, literal]
  | joined factor joins _ ih =>
      obtain ⟨operator, compares⟩ := factor.compares
      obtain ⟨v, literal⟩ := factor.literal
      obtain ⟨terms, parsed⟩ := ih
      rename_i k _ _
      cases k <;>
        simp [sentence, factor.named, factor.known, compares, literal, joins, parsed, Except.map]

/-- A rejection points at the first token with which no sentence goes on. -/
theorem sentence_leaves (some : allowed ≠ []) {fault : Fault}
    (h : sentence allowed size ts = .error fault) :
    LeavesAt allowed size ts fault.position := by
  fun_induction sentence allowed size ts with
  | case1 =>
      cases h
      exact .ended (viable_nil some) (not_sentence_short (by simp))
  | case2 name rest other =>
      cases h
      exact .token [] (viable_nil some) (not_viable_name fun fits => other fits.1)
  | case3 name rest named unknown =>
      cases h
      exact .token [] (viable_nil some) (not_viable_name fun fits => unknown fits.2)
  | case4 name named known =>
      cases h
      exact .ended (viable_name (Decidable.not_not.1 named) (Decidable.not_not.1 known))
        (not_sentence_short (by simp))
  | case5 name named known op operator compares =>
      cases h
      exact .ended
        (viable_operator (Decidable.not_not.1 named) (Decidable.not_not.1 known) compares)
        (not_sentence_short (by simp))
  | case7 name named known op operator compares lit v literal c next rest joins =>
      rename_i ih
      exact (ih (map_eq_error h)).joined (isFactor_of_passed named known compares literal) joins
  | case8 name named known op operator compares lit v literal c next rest joins =>
      rename_i ih
      exact (ih (map_eq_error h)).joined (isFactor_of_passed named known compares literal) joins
  | case6 => cases h
  | case9 name named known op operator compares lit v literal next rest notBoth notEither =>
      cases h
      have factor := isFactor_of_passed named known compares literal
      refine .token [name, op, lit] factor.viable (not_viable_link fun k joins => ?_)
      cases k with
      | both => exact notBoth joins
      | either => exact notEither joins
  | case10 name named known op operator compares lit rest word =>
      cases h
      refine .token [name, op] (viable_operator (Decidable.not_not.1 named)
        (Decidable.not_not.1 known) compares) (not_viable_literal fun v literal => ?_)
      cases word.symm.trans literal
  | case11 name named known op operator compares lit rest notLiteral =>
      cases h
      exact .token [name, op] (viable_operator (Decidable.not_not.1 named)
        (Decidable.not_not.1 known) compares) (not_viable_literal notLiteral)
  | case12 name named known op rest notOperator =>
      cases h
      exact .token [name]
        (viable_name (Decidable.not_not.1 named) (Decidable.not_not.1 known))
        (not_viable_operator notOperator)

/-- What the parser makes of the tokens of a text. -/
theorem parse_of_tokens {source : Text} (h : tokenize source = .ok ts) (allowed : List Text) :
    parse allowed source = if ts = [] then .error ⟨.empty, 0⟩
      else (sentence allowed source.length ts).map fun terms => ⟨source, terms⟩ := by
  rw [parse, h]
  cases ts <;> rfl

end

/-- The parser accepts a text exactly if its tokens form a sentence over the allowed identifiers.
The condition then has the comparisons of the sentence, cut at `||` and `&&`; and a text whose
tokens form none is refused at the first token that no such sentence has in its place. -/
theorem parse_grammar {allowed : List Text} (some : allowed ≠ []) (source : Text) :
    ((∃ c, parse allowed source = .ok c) ↔
      ∃ ts, tokenize source = .ok ts ∧ Sentence allowed ts) ∧
    (∀ c ts, parse allowed source = .ok c → tokenize source = .ok ts →
      c.source = source ∧ List.Forall₂ (List.Forall₂ Spells) (factors ts) c.terms) ∧
    ∀ fault ts, parse allowed source = .error fault → tokenize source = .ok ts →
      if ts = [] then fault.position = 0
      else LeavesAt allowed source.length ts fault.position := by
  refine ⟨⟨?_, ?_⟩, ?_, ?_⟩
  · rintro ⟨c, parsed⟩
    obtain ⟨ts, tokens, -⟩ := bind_eq_ok parsed
    rw [parse_of_tokens tokens] at parsed
    split at parsed
    · cases parsed
    · obtain ⟨terms, accepted, -⟩ := map_eq_ok parsed
      exact ⟨ts, tokens, (sentence_sound accepted).1⟩
  · rintro ⟨ts, tokens, accepted⟩
    obtain ⟨terms, parsed⟩ := sentence_complete accepted source.length
    have present : ts ≠ [] := by
      rintro rfl
      cases accepted
    rw [parse_of_tokens tokens, if_neg present, parsed]
    exact ⟨_, rfl⟩
  · intro c ts parsed tokens
    rw [parse_of_tokens tokens] at parsed
    split at parsed
    · cases parsed
    · obtain ⟨terms, accepted, rfl⟩ := map_eq_ok parsed
      exact ⟨rfl, (sentence_sound accepted).2 (tokensFrom_spelled tokens)⟩
  · intro fault ts refused tokens
    rw [parse_of_tokens tokens] at refused
    split at refused
    · rename_i none
      cases refused
      rw [if_pos none]
    · rename_i present
      rw [if_neg present]
      exact sentence_leaves some (map_eq_error refused)

def joinedSource : Text := "change.auth == true || ci.status != \"ok\" && ci.status > 0"

def brokenSource : Text := "change.auth == true && ci.status true"

theorem parse_grammar_joined :
    Signal.identifiers ≠ [] ∧
    (∃ c ts, parse Signal.identifiers joinedSource = .ok c ∧ c.terms.map List.length = [1, 2] ∧
      Sentence Signal.identifiers ts ∧
      List.Forall₂ (List.Forall₂ Spells) (factors ts) c.terms) ∧
    ∃ fault ts, parse Signal.identifiers brokenSource = .error fault ∧ fault.position = 33 ∧
      LeavesAt Signal.identifiers brokenSource.length ts fault.position := by
  have some : Signal.identifiers ≠ [] := by decide
  refine ⟨some, ?_, ?_⟩
  · obtain ⟨accepts, reads, -⟩ := parse_grammar some joinedSource
    have lengths : (parse Signal.identifiers joinedSource).toOption.map
        (fun c => c.terms.map List.length) = .some [1, 2] := by decide +kernel
    obtain ⟨c, read, lengths⟩ := Option.map_eq_some_iff.1 lengths
    have parsed := eq_ok_of_toOption read
    obtain ⟨ts, tokens, sentence⟩ := accepts.1 ⟨c, parsed⟩
    exact ⟨c, ts, parsed, lengths, sentence, (reads c ts parsed tokens).2⟩
  · obtain ⟨-, -, refuses⟩ := parse_grammar some brokenSource
    have counted : (tokenize brokenSource).toOption.map List.length = .some 6 := by decide +kernel
    obtain ⟨ts, read, count⟩ := Option.map_eq_some_iff.1 counted
    have refused : parse Signal.identifiers brokenSource =
        .error ⟨.notAnOperator "true", 33⟩ := eq_error_of_fault (by decide +kernel)
    have leaves := refuses _ ts refused (eq_ok_of_toOption read)
    rw [if_neg fun none => by rw [none] at count; cases count] at leaves
    exact ⟨_, ts, refused, rfl, leaves⟩

end Condition

end ReleaseGate
