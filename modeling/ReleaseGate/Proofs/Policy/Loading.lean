import ReleaseGate.Policy.File
import ReleaseGate.Proofs.Json.LineEnds
import ReleaseGate.Proofs.Policy.Restored

/-!
How the loading of a JSON policy file ends. The text is malformed, or it holds a value that makes a
policy, that breaks the contract of policies, or whose rules mention unknown identifiers; only a
value that is neither an object nor read as one is refused in another way.
-/

namespace ReleaseGate.Policy

open Contract

/-- The document that a parsed value stands for: null stands for an empty one. -/
def document : Value → Value
  | .null => .object []
  | v => v

theorem ofJson_eq (default : Value) (text : Text) :
    ofJson default text =
      match Json.ofText? text with
      | none => .error .malformedJson
      | some v => accept default (document v) := by
  rw [ofJson]
  cases Json.ofText? text with
  | none => rfl
  | some v => cases v <;> rfl

/-- A file named for JSON is read as JSON. -/
theorem load_json (default : Value) {files : Files} {path : FilePath} {text : String}
    (json : Notation.ofSuffix? path.suffix = some .json) (stored : files.read path = .ok text) :
    load default files path = ofJson default text := by
  have unified : Json.ofText? (Text.ofList (Text.unifyLineEnds (Text.toList text))) =
      Json.ofText? text := by
    rw [Json.ofText?, Text.toList_ofList, Json.read?_unified, Json.ofText?]
  unfold load
  rw [json, stored]
  show ofJson default (Text.ofList (Text.unifyLineEnds (Text.toList text))) = _
  rw [ofJson, unified, ofJson]

/-- The documented ways in which the loading of a JSON text ends. -/
inductive Documented (L : Bool) (text : Text) : Except Error Policy → Prop
  | malformed (unread : Json.ofText? text = none) : Documented L text (.error .malformedJson)
  | loaded {v : Value} {p : Policy} {cs : List (Value × Value)} (read : Json.ofText? text = some v)
      (reads : p.ReadFrom (.bool L) (document v)) (clean : policyIssues p.toValue = [])
      (scanned : rawConditions p.toValue = .ok cs) (known : checkIdentifiers cs = .ok ()) :
      Documented L text (.ok p)
  | violates {v : Value} {i : Issue} {is : List Issue} (read : Json.ofText? text = some v)
      (unclean : policyIssues (document v) ≠ [])
      (found : policyIssues (document v) = i :: is ∨
        ∃ es, (Node.ofValue v).entries = .ok es ∧ policyIssues (Node.mapping es) = i :: is) :
      Documented L text (.error (.contractViolation "policy" (i :: is)))
  | unknown {v : Value} {texts : List (Value × Text)} {u : Unknown} {us : List Unknown}
      (read : Json.ofText? text = some v) (clean : policyIssues (document v) = [])
      (scanned : rawConditions (document v) = .ok (written texts))
      (found : texts.flatMap (fun t => unknownsOf t.1 t.2) = u :: us) :
      Documented L text (.error (.invalidPolicy u.rule
        (Text.intercalate "; " ((u :: us).map Unknown.text)) (some u.position)))

/-- A parsed value that comes before the contract: null, an object, or what is read as an object
whose unknown members have an order, and is none that the contract admits. -/
inductive Checkable : Value → Prop
  | null : Checkable .null
  | object (ms : List (Text × Value)) : Checkable (.object ms)
  | entries {v : Value} {es : List (Key × Node)} (read : (Node.ofValue v).entries = .ok es)
      (ordered : hasOrderedKeys (Node.mapping es) = true)
      (unclean : policyIssues (Node.mapping es) ≠ []) : Checkable v

section

variable {L : Bool} {text : Text} {v : Value}

theorem ofObject_documented {ms : List (Text × Value)} (read : Json.ofText? text = some v)
    (same : document v = .object ms) (hd : (Value.object ms).WellFormed) :
    Documented L text (accept (.bool L) (.object ms)) := by
  cases issues : policyIssues (Value.object ms) with
  | cons i is =>
      have refused : accept (.bool L) (.object ms) =
          .error (.contractViolation "policy" (i :: is)) := by
        show ofObject (.bool L) (.object ms) = _
        rw [ofObject, issues]
      rw [refused]
      rw [← same] at issues
      exact .violates read (issues ▸ List.cons_ne_nil i is) (.inl issues)
  | nil =>
      obtain ⟨p, reads⟩ := policyIssues_clean (.bool L) issues
      have verdict := checkIdentifiers_written (p.rules.map fun r => (r.id, r.condition.text))
      rw [accept_of_read reads issues]
      rw [← same] at reads issues
      cases found : (p.rules.map fun r => (r.id, r.condition.text)).flatMap
          fun t => unknownsOf t.1 t.2 with
      | nil =>
          rw [found] at verdict
          rw [verdict]
          rw [← same] at hd
          have again := (toValue_reads issues hd reads).rawConditions
          exact .loaded read reads (toValue_clean issues hd reads) again verdict
      | cons u us =>
          rw [found] at verdict
          rw [verdict]
          exact .unknown read issues reads.rawConditions found

/-- A value that is no object is refused with what breaks the contract in what it is read as. -/
theorem complaint_cases (n : Node) :
    (∃ es i is, n.entries = .ok es ∧ hasOrderedKeys (Node.mapping es) = true ∧
      policyIssues (Node.mapping es) = i :: is ∧
      complaint n = .contractViolation "policy" (i :: is)) ∨
    (∃ m, complaint n = .misfit m) ∧
      ∀ es, n.entries = .ok es → hasOrderedKeys (Node.mapping es) = true →
        policyIssues (Node.mapping es) = [] := by
  unfold complaint
  cases read : n.entries with
  | error m => exact .inr ⟨⟨m, rfl⟩, nofun⟩
  | ok es =>
      cases ordered : hasOrderedKeys (Node.mapping es) with
      | false =>
          refine .inr ⟨⟨.wrongType, by simp [ordered]⟩, fun fs same there => ?_⟩
          cases same
          exact nomatch ordered.symm.trans there
      | true =>
          cases issues : policyIssues (Node.mapping es) with
          | nil =>
              refine .inr ⟨⟨.notAnObject, by simp [ordered, issues]⟩, fun fs same _ => ?_⟩
              cases same
              exact issues
          | cons i is =>
              exact .inl ⟨es, i, is, rfl, ordered, issues, by simp [ordered, issues]⟩

theorem document_cases (v : Value) :
    (∃ ms, document v = .object ms ∧ (v = .null ∧ ms = [] ∨ v = .object ms)) ∨
      (∀ default, accept default (document v) = .error (complaint (.ofValue v))) ∧
        policyIssues (document v) ≠ [] ∧ v ≠ .null ∧ ∀ ms, v ≠ .object ms := by
  cases v with
  | null => exact .inl ⟨[], rfl, .inl ⟨rfl, rfl⟩⟩
  | object ms => exact .inl ⟨ms, rfl, .inr rfl⟩
  | bool _ | int _ | float _ | str _ | list _ =>
      exact .inr ⟨fun _ => rfl, nofun, nofun, nofun⟩

/-- A JSON text of a value that can be checked ends as documented; with any other value the loading
breaks off. -/
theorem ofJson_ends (read : Json.ofText? text = some v) :
    Checkable v ∧ Documented L text (ofJson (.bool L) text) ∨
      ¬ Checkable v ∧ ∃ m, ofJson (.bool L) text = .error (.misfit m) := by
  have wellFormed : v.WellFormed := Json.read?_wellFormed read
  rw [ofJson_eq, read]
  obtain ⟨ms, same, given⟩ | ⟨refused, unclean, notNull, notObject⟩ := document_cases v
  · left
    dsimp only
    rw [same]
    obtain ⟨rfl, rfl⟩ | rfl := given
    · exact ⟨.null, ofObject_documented read same (by simp [Value.wellFormed_object])⟩
    · exact ⟨.object ms, ofObject_documented read same wellFormed⟩
  · dsimp only
    rw [refused]
    obtain ⟨es, i, is, entries, ordered, issues, complaint⟩ | ⟨⟨m, complaint⟩, clean⟩ :=
      complaint_cases (.ofValue v)
    · left
      rw [complaint]
      exact ⟨.entries entries ordered (issues ▸ List.cons_ne_nil i is),
        .violates read unclean (.inr ⟨es, entries, issues⟩)⟩
    · right
      rw [complaint]
      refine ⟨fun checkable => ?_, m, rfl⟩
      cases checkable with
      | null => exact notNull rfl
      | object ms => exact notObject ms rfl
      | entries entries ordered breaks => exact breaks (clean _ entries ordered)

end

/-- A file whose value is a policy document, with its members in whatever order, is loaded as the
policy of that document. -/
theorem load_alike {L : Bool} {p : Policy} {d v : Value} {files : Files} {path : FilePath}
    {text : String} (reads : p.ReadFrom (.bool L) d) (clean : policyIssues d = [])
    (hd : d.WellFormed) (known : (Misfit.lift (rawConditions d) >>= checkIdentifiers) = .ok ())
    (json : Notation.ofSuffix? path.suffix = some .json) (stored : files.read path = .ok text)
    (read : Json.ofText? text = some v) (alike : v.Alike d) :
    load (.bool L) files path = .ok p := by
  obtain ⟨meets, own⟩ := read_alike reads clean hd (Json.read?_wellFormed read) alike
  obtain ⟨ms, rfl⟩ : ∃ ms, v = .object ms := by
    cases v with
    | object ms => exact ⟨ms, rfl⟩
    | _ => exact nomatch own.version
  rw [reads.rawConditions] at known
  have accepted : checkIdentifiers (written (p.rules.map fun r => (r.id, r.condition.text))) =
      .ok () := known
  rw [load_json _ json stored, ofJson_eq, read]
  show accept (.bool L) (.object ms) = _
  rw [accept_of_read own meets, accepted]
  rfl

/-- The loading of a JSON policy file, whatever its text, ends in one of the documented ways exactly
where no value is parsed or the parsed one comes before the contract; any other value ends it with a
misfit. -/
theorem load_ends (L : Bool) {files : Files} {path : FilePath} {text : String}
    (json : Notation.ofSuffix? path.suffix = some .json) (stored : files.read path = .ok text) :
    (Documented L text (load (.bool L) files path) ↔
      ∀ v, Json.ofText? text = some v → Checkable v) ∧
    ∀ v, Json.ofText? text = some v → ¬ Checkable v →
      ∃ m, load (.bool L) files path = .error (.misfit m) := by
  rw [load_json _ json stored]
  cases read : Json.ofText? text with
  | none =>
      have ended : ofJson (.bool L) text = .error .malformedJson := by rw [ofJson, read]
      rw [ended]
      exact ⟨iff_of_true (.malformed read) nofun, nofun⟩
  | some v =>
      simp only [Option.some.injEq, forall_eq']
      obtain ⟨checkable, documented⟩ | ⟨uncheckable, m, misfit⟩ := ofJson_ends (L := L) read
      · exact ⟨iff_of_true documented checkable, fun other => absurd checkable other⟩
      · rw [misfit]
        exact ⟨iff_of_false nofun uncheckable, fun _ => ⟨m, rfl⟩⟩

def policyFile (text : String) : Files := ⟨[([↑"p.json"], .file text)]⟩

theorem policyFile_read (text : String) : (policyFile text).read ["p.json"] = .ok text := rfl

def bareText : String := "\x7b\"version\": \"v1\",\r\n \"rules\": []\x7d"

theorem load_ends_bare :
    Notation.ofSuffix? (FilePath.suffix ["p.json"]) = some .json ∧
    (policyFile bareText).read ["p.json"] = .ok bareText ∧
    Documented true bareText (load (.bool true) (policyFile bareText) ["p.json"]) ∧
    (policyFile "5").read ["p.json"] = .ok "5" ∧ ¬ Checkable (.int 5) ∧
    ∃ m, load (.bool true) (policyFile "5") ["p.json"] = .error (.misfit m) := by
  have json : Notation.ofSuffix? (FilePath.suffix ["p.json"]) = some .json := by decide +kernel
  have bare := policyFile_read bareText
  have five := policyFile_read "5"
  have object : Json.ofText? bareText =
      some (.object [("version", .str "v1"), ("rules", .list [])]) := by decide +kernel
  have number : Json.ofText? "5" = some (.int 5) := by decide +kernel
  have uncheckable : ¬ Checkable (.int 5) := by
    rintro (_ | _ | ⟨entries, -, -⟩)
    cases entries
  refine ⟨json, bare, (load_ends true json bare).1.2 fun v read => ?_, five, uncheckable,
    (load_ends true json five).2 _ number uncheckable⟩
  rw [Option.some.inj (read.symm.trans object)]
  exact .object _

/-- A number is refused neither as malformed nor as no policy. -/
theorem load_number_undocumented :
    Notation.ofSuffix? (FilePath.suffix ["p.json"]) = some .json ∧
    (policyFile "5").read ["p.json"] = .ok "5" ∧ Json.ofText? "5" = some (.int 5) ∧
    policyIssues (Value.int 5) = [.notADocument "policy"] ∧
    load (.bool true) (policyFile "5") ["p.json"] = .error (.misfit .wrongType) ∧
    ¬ Documented true "5" (load (.bool true) (policyFile "5") ["p.json"]) := by
  have json : Notation.ofSuffix? (FilePath.suffix ["p.json"]) = some .json := by decide +kernel
  have stored := policyFile_read "5"
  have value : Json.ofText? "5" = some (.int 5) := by decide +kernel
  have ended : load (.bool true) (policyFile "5") ["p.json"] = .error (.misfit .wrongType) := by
    rw [load_json _ json stored, ofJson_eq, value]
    rfl
  refine ⟨json, stored, value, rfl, ended, ?_⟩
  rw [ended]
  exact nofun

end ReleaseGate.Policy
