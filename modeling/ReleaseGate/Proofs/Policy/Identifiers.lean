import ReleaseGate.Policy.Identifiers
import ReleaseGate.Proofs.Condition.Mentions

/-!
The check of the identifiers of a policy against its evaluation. The check reads conditions without
parsing them, and yet a policy that it accepts never meets an unknown identifier when its rules are
evaluated, and it accepts every policy whose conditions parse.
-/

namespace ReleaseGate.Policy

def unknownsOf (rule : Value) (source : Text) : List Unknown :=
  ((Condition.mentions source).filter fun m => m.1 ∉ Signal.identifiers).map fun m =>
    ⟨rule, m.1, m.2⟩

theorem unknownsOf_eq_nil {rule : Value} {source : Text} :
    unknownsOf rule source = [] ↔ ∀ m ∈ Condition.mentions source, m.1 ∈ Signal.identifiers := by
  simp [unknownsOf, List.filter_eq_nil_iff]

theorem rule_of_unknownsOf {rule : Value} {source : Text} :
    ∀ u ∈ unknownsOf rule source, u.rule = rule :=
  List.forall_mem_map.2 fun _ _ => rfl

def written (texts : List (Value × Text)) : List (Value × Value) :=
  texts.map fun t => (t.1, .str t.2)

theorem unknowns_written (texts : List (Value × Text)) :
    unknowns (written texts) = .ok (texts.flatMap fun t => unknownsOf t.1 t.2) := by
  have each : (written texts).mapM (fun c => unknownIn c.1 c.2) =
      .ok ((written texts).map fun c => unknownsOf c.1 c.2.text) :=
    mapM_eq_ok (List.forall_mem_map.2 fun _ _ => rfl)
  rw [unknowns, each, List.flatMap_def, written, List.map_map]
  rfl

theorem checkIdentifiers_written (texts : List (Value × Text)) :
    checkIdentifiers (written texts) =
      match texts.flatMap fun t => unknownsOf t.1 t.2 with
      | [] => .ok ()
      | u :: us => .error (.invalidPolicy u.rule
          (Text.intercalate "; " ((u :: us).map Unknown.text)) (some u.position)) := by
  rw [checkIdentifiers, unknowns_written]
  cases texts.flatMap fun t => unknownsOf t.1 t.2 <;> rfl

/-- The check passes exactly if every identifier that a condition mentions is known. -/
theorem checkIdentifiers_ok_iff {texts : List (Value × Text)} :
    checkIdentifiers (written texts) = .ok () ↔
      ∀ t ∈ texts, ∀ m ∈ Condition.mentions t.2, m.1 ∈ Signal.identifiers := by
  have accepts : checkIdentifiers (written texts) = .ok () ↔
      (texts.flatMap fun t => unknownsOf t.1 t.2) = [] := by
    rw [checkIdentifiers_written]
    cases texts.flatMap fun t => unknownsOf t.1 t.2 <;> simp
  rw [accepts, List.flatMap_eq_nil_iff]
  exact forall₂_congr fun t _ => unknownsOf_eq_nil

/-- A check that lets conditions pass, against what the parser makes of them. -/
structure Guards (check : Except Error Unit) (given : Text → Prop) : Prop where
  sound : check = .ok () → ∀ s, given s → ∀ x fault,
    Condition.evaluate s x = .error fault → fault.cause.kind ≠ .unknownIdentifier
  complete : (∀ s, given s → ∃ c, Condition.parse Signal.identifiers s = .ok c) → check = .ok ()

/-- Where all mentioned identifiers are known, no unknown one is met in evaluating. -/
theorem evaluate_known {source : Text} {x : SignalVector} {fault : Condition.Fault}
    (known : ∀ m ∈ Condition.mentions source, m.1 ∈ Signal.identifiers)
    (failed : Condition.evaluate source x = .error fault) :
    fault.cause.kind ≠ .unknownIdentifier := by
  intro kind
  obtain ⟨cause, position⟩ := fault
  cases cause with
  | unknownIdentifier name =>
      obtain ⟨mentioned, unknown⟩ := Condition.parse_unknown (map_eq_error failed)
      exact unknown (known _ mentioned)
  | _ => cases kind

theorem checkIdentifiers_guards {texts : List (Value × Text)} {given : Text → Prop}
    (same : ∀ s, given s ↔ ∃ t ∈ texts, t.2 = s) :
    Guards (checkIdentifiers (written texts)) given where
  sound accepted s hs x fault failed := by
    obtain ⟨t, ht, rfl⟩ := (same s).1 hs
    exact evaluate_known (checkIdentifiers_ok_iff.1 accepted t ht) failed
  complete parses := by
    refine checkIdentifiers_ok_iff.2 fun t ht => ?_
    obtain ⟨c, parsed⟩ := parses t.2 ((same _).2 ⟨t, ht, rfl⟩)
    exact Condition.parse_allowed parsed

def rawText (rule : Value) (index : Nat) : Value × Text :=
  (.str ((rule.member? "id").getD (.str ("rules[" ++ intText index ++ "]"))).display,
    ((rule.member? "when").getD (.str "")).display)

theorem rawConditions_objects {v : Value} {docs : List Value}
    (found : v.find "rules" = .ok (some (.list docs)))
    (objects : ∀ d ∈ docs, ∃ ms, d = .object ms) :
    rawConditions v = .ok (written (docs.zipIdx.map fun p => rawText p.1 p.2)) := by
  have each : docs.zipIdx.mapM (fun p => rawCondition p.1 p.2) =
      .ok (docs.zipIdx.map fun p => ((rawText p.1 p.2).1, .str (rawText p.1 p.2).2)) := by
    refine mapM_eq_ok fun p hp => ?_
    obtain ⟨ms, object⟩ := objects p.1 (List.fst_mem_of_mem_zipIdx hp)
    rw [object]
    rfl
  rw [written, List.map_map, rawConditions, found]
  cases docs with
  | nil => rfl
  | cons d ds => exact each

theorem member_of_find {v w : Value} {key : Text} (h : v.find key = .ok (some w)) :
    (∃ ms, v = .object ms) ∧ v.member? key = some w := by
  cases v with
  | object ms => exact ⟨⟨ms, rfl⟩, Except.ok.inj h⟩
  | _ => cases h

theorem rawText_of_find {rule : Value} {source : Text}
    (h : rule.find "when" = .ok (some (.str source))) (index : Nat) :
    (rawText rule index).2 = source := by
  rw [rawText, (member_of_find h).2]
  rfl

theorem conditions_written {p : Policy} (texts : ∀ r ∈ p.rules, ∃ s, r.condition = .str s) :
    p.conditions = written (p.rules.map fun r => (r.id, r.condition.text)) := by
  rw [conditions, written, List.map_map]
  refine List.map_congr_left fun r hr => ?_
  obtain ⟨s, text⟩ := texts r hr
  simp only [Function.comp_apply, text, Value.text]

/-- Two readings of conditions come to one. The scan finds the words that a search finds once quoted
spans are blanked and, where a text has tokens, its identifier tokens. A policy that the check lets
pass, or its document, has no rule that meets an unknown identifier in any evaluation, and the check
lets every policy pass whose conditions parse. -/
theorem identifier_check_agrees :
    (∀ source, Condition.mentions source =
      ((Condition.wordsFrom 0 (Condition.blanked source.toList)).filter
        fun w => !Condition.isKeyword w.1).map fun w => (Text.ofList w.1, w.2)) ∧
    (∀ source ts, Condition.tokenize source = .ok ts →
      Condition.mentions source = ts.filterMap Condition.Token.mention?) ∧
    (∀ p : Policy, (∀ r ∈ p.rules, ∃ s, r.condition = .str s) →
      Guards (checkIdentifiers p.conditions) fun s => ∃ r ∈ p.rules, r.condition = .str s) ∧
    ∀ v docs, v.find "rules" = .ok (some (.list docs)) →
      (∀ d ∈ docs, ∃ s, d.find "when" = .ok (some (.str s))) →
      ∃ cs, rawConditions v = .ok cs ∧
        Guards (checkIdentifiers cs) fun s => ∃ d ∈ docs, d.find "when" = .ok (some (.str s)) := by
  refine ⟨fun source => Condition.mentionsFrom_eq_words 0 source.toList,
    fun _ _ tokens => Condition.mentions_of_tokens tokens, fun p texts => ?_,
    fun v docs found texts => ?_⟩
  · rw [conditions_written texts]
    refine checkIdentifiers_guards fun s => ?_
    constructor
    · rintro ⟨r, hr, text⟩
      exact ⟨_, List.mem_map_of_mem hr, by simp only [text, Value.text]⟩
    · rintro ⟨t, ht, rfl⟩
      obtain ⟨r, hr, rfl⟩ := List.mem_map.1 ht
      obtain ⟨s, text⟩ := texts r hr
      exact ⟨r, hr, by simp only [text, Value.text]⟩
  · have objects : ∀ d ∈ docs, ∃ ms, d = .object ms := fun d hd => by
      obtain ⟨s, text⟩ := texts d hd
      exact (member_of_find text).1
    refine ⟨_, rawConditions_objects found objects, checkIdentifiers_guards fun s => ?_⟩
    constructor
    · rintro ⟨d, hd, text⟩
      obtain ⟨i, hi, rfl⟩ := List.mem_iff_getElem.1 hd
      have place : (docs[i], i) ∈ docs.zipIdx := by simp [List.mem_zipIdx_iff_getElem?, hi]
      exact ⟨_, List.mem_map_of_mem place, rawText_of_find text i⟩
    · rintro ⟨t, ht, rfl⟩
      obtain ⟨⟨d, i⟩, place, rfl⟩ := List.mem_map.1 ht
      have hd := List.fst_mem_of_mem_zipIdx place
      obtain ⟨s, text⟩ := texts d hd
      exact ⟨d, hd, by rw [rawText_of_find text, text]⟩

def infraRule : Rule where
  id := .str "R-1"
  condition := .str "change.infra == true && ci.status != \"true\""
  action := .killAndRollback
  severity := .block
  reason := .str "infrastructure"

def infraPolicy : Policy := ⟨.str "v1", [infraRule], .bool false⟩

theorem identifier_check_agrees_infra :
    (∃ ts, Condition.tokenize "change.infra == true && ci.status != \"true\"" = .ok ts) ∧
    Condition.mentions "change.infra == true && ci.status != \"true\"" =
      [(↑"change.infra", 0), (↑"ci.status", 24)] ∧
    (∀ r ∈ infraPolicy.rules, ∃ s, r.condition = .str s) ∧
    checkIdentifiers infraPolicy.conditions = .ok () ∧
    (∀ x fault, Condition.evaluate "change.infra == true && ci.status != \"true\"" x =
    .error fault →
      fault.cause.kind ≠ .unknownIdentifier) ∧
    ∃ cs, rawConditions infraPolicy.toValue = .ok cs ∧
      Guards (checkIdentifiers cs) fun s =>
        ∃ d ∈ [infraRule.toValue], d.find "when" = .ok (some (.str s)) := by
  have found : (Condition.tokenize "change.infra == true && ci.status != \"true\"").toOption.map
      (fun ts => ts.filterMap Condition.Token.mention?) =
        some [(↑"change.infra", 0), (↑"ci.status", 24)] := by decide +kernel
  have texts : ∀ r ∈ infraPolicy.rules, ∃ s, r.condition = .str s :=
    List.forall_mem_singleton.2 ⟨_, rfl⟩
  have accepted : checkIdentifiers infraPolicy.conditions = .ok () :=
    eq_ok_of_toOption (by decide +kernel)
  obtain ⟨-, lexers, policies, documents⟩ := identifier_check_agrees
  obtain ⟨ts, read, mentions⟩ := Option.map_eq_some_iff.1 found
  have tokens := eq_ok_of_toOption read
  exact ⟨⟨ts, tokens⟩, (lexers _ ts tokens).trans mentions, texts, accepted,
    (policies infraPolicy texts).sound accepted _ ⟨_, List.mem_singleton_self _, rfl⟩,
    documents infraPolicy.toValue [infraRule.toValue] rfl (List.forall_mem_singleton.2 ⟨_, rfl⟩)⟩

end ReleaseGate.Policy
