import ReleaseGate.Proofs.Contract.Stable
import ReleaseGate.Proofs.Json.Alike

/-!
Fields of documents and the issues about them. A shape lists the fields that a check knows, at every
depth. A check conforms to a shape if the issues about a field, and about what lies below it, go by
what stands in that place alone, and if a required field that is missing is always an issue. How a
check is put together shows that it conforms.
-/

namespace ReleaseGate

open Json (sorted)

theorem Path.member_append (p : Path) (name : Text) (q : Path) :
    p.member name ++ q = p ++ .text name :: q := by
  rw [member, List.append_assoc, List.singleton_append]

theorem Path.item_append (p : Path) (i : Nat) (q : Path) : p.item i ++ q = p ++ .int i :: q := by
  rw [item, List.append_assoc, List.singleton_append]

namespace Value

def child? (v : Value) : Key → Option Value
  | .text name => v.member? name
  | .int (.ofNat i) => v.items[i]?
  | _ => none

def at? (v : Value) : Path → Option Value
  | [] => some v
  | k :: p => (v.child? k).bind fun w => w.at? p

def holds (v : Value) : Key → Bool
  | .text _ => v.fits .object
  | .int _ => v.fits .list
  | _ => false

/-- Every container on the way is there, and is one that the next key is for. -/
def Opens (v : Value) : Path → Prop
  | [] => True
  | k :: p => v.holds k = true ∧ (p = [] ∨ ∃ w, v.child? k = some w ∧ w.Opens p)

/-- The same stands at the end of the way in both values, or nothing in either. -/
def AgreeAt (p : Path) (v w : Value) : Prop := Option.Rel Alike (v.at? p) (w.at? p)

theorem child_wellFormed {v w : Value} {k : Key} (hv : v.WellFormed) (h : v.child? k = some w) :
    w.WellFormed := by
  unfold child? at h
  split at h
  · exact member_wellFormed hv h
  · exact items_wellFormed hv w (List.mem_of_getElem? h)
  · cases h

theorem fits_of_holds {v w : Value} {k : Key} (hv : v.holds k = true) (hw : w.holds k = true)
    (kind : Kind) : v.fits kind = w.fits kind := by
  cases k with
  | text _ =>
      obtain ⟨ms, rfl⟩ := Check.fits_object.1 hv
      obtain ⟨ns, rfl⟩ := Check.fits_object.1 hw
      cases kind <;> rfl
  | int _ =>
      obtain ⟨vs, rfl⟩ := Check.fits_list.1 hv
      obtain ⟨ws, rfl⟩ := Check.fits_list.1 hw
      cases kind <;> rfl
  | bool _ | float _ | null | date _ => cases hv

/-- The container that a way of two keys or more goes through first. -/
theorem Opens.next {v : Value} {k l : Key} {p : Path} (opens : v.Opens (k :: l :: p))
    (absent : v.at? (k :: l :: p) = none) :
    ∃ w, v.child? k = some w ∧ w.Opens (l :: p) ∧ w.at? (l :: p) = none := by
  obtain ⟨-, none | ⟨w, found, opens⟩⟩ := opens
  · cases none
  · rw [at?, found] at absent
    exact ⟨w, found, opens, absent⟩

/-- Where two values agree, the first key of the way leads nowhere in both, or it leads to values
that agree on the rest of the way. -/
theorem AgreeAt.children {k : Key} {p : Path} {v w : Value} (agree : AgreeAt (k :: p) v w)
    (opens : v.Opens (k :: p)) (opens' : w.Opens (k :: p)) :
    (v.child? k = none ∧ w.child? k = none) ∨
      ∃ x y, v.child? k = some x ∧ w.child? k = some y ∧ x.Opens p ∧ y.Opens p ∧ AgreeAt p x y := by
  have further {u : Value} (opens : u.Opens (k :: p)) {x : Value} (found : u.child? k = some x) :
      x.Opens p := by
    obtain ⟨-, rfl | ⟨_, there, opens⟩⟩ := opens
    · trivial
    · cases found.symm.trans there
      exact opens
  have closed {u : Value} (opens : u.Opens (k :: p)) (found : u.child? k = none) : p = [] := by
    obtain ⟨-, here | ⟨_, there, -⟩⟩ := opens
    · exact here
    · cases found.symm.trans there
  unfold AgreeAt at agree
  rw [at?, at?] at agree
  cases found : v.child? k with
  | none =>
      cases found' : w.child? k with
      | none => exact Or.inl ⟨rfl, rfl⟩
      | some y =>
          rw [found, found', closed opens found] at agree
          cases agree
  | some x =>
      cases found' : w.child? k with
      | none =>
          rw [found, found', closed opens' found'] at agree
          cases agree
      | some y =>
          rw [found, found'] at agree
          exact Or.inr ⟨x, y, rfl, rfl, further opens found, further opens' found', agree⟩

end Value

namespace Issue

/-- Whether an issue is about a place or about something below it. Places are told apart by their
keys and not by their texts, so an unknown member called `ci.status` is not the status of the
checks. -/
def below (place : Path) : Issue → Bool
  | .at p _ => place.isPrefixOf p
  | .notADocument _ => false

/-- An issue belongs to a place if its path goes through it. -/
theorem below_iff {place : Path} {i : Issue} :
    i.below place = true ↔ ∃ rest problem, i = .at (place ++ rest) problem := by
  cases i with
  | «at» p problem =>
      rw [below, List.isPrefixOf_iff_prefix]
      constructor
      · rintro ⟨rest, rfl⟩
        exact ⟨rest, problem, rfl⟩
      · rintro ⟨rest, _, same⟩
        cases same
        exact ⟨rest, rfl⟩
  | notADocument name => exact iff_of_false Bool.false_ne_true (fun ⟨_, _, h⟩ => nomatch h)

theorem below_here (place : Path) (problem : Problem) : (Issue.at place problem).below place =
    true :=
  below_iff.2 ⟨[], problem, by rw [List.append_nil]⟩

theorem below_of_append {place rest : Path} {i : Issue} (h : i.below (place ++ rest) = true) :
    i.below place = true := by
  obtain ⟨more, problem, rfl⟩ := below_iff.1 h
  exact below_iff.2 ⟨rest ++ more, problem, by rw [List.append_assoc]⟩

/-- Nothing is below two keys of one place. -/
theorem not_below_of_ne {r p q : Path} {k l : Key} (apart : k ≠ l) {i : Issue}
    (h : i.below (r ++ k :: p) = true) : i.below (r ++ l :: q) = false := by
  obtain ⟨rest, problem, rfl⟩ := below_iff.1 h
  refine Bool.eq_false_iff.2 fun h' => ?_
  obtain ⟨rest', _, same⟩ := below_iff.1 h'
  simp only [Issue.at.injEq, List.append_assoc, List.append_cancel_left_eq, List.cons_append,
    List.cons.injEq] at same
  exact apart same.1.1

theorem not_below_end (place p : Path) (k : Key) (problem : Problem) :
    (Issue.at place problem).below (place ++ k :: p) = false := by
  refine Bool.eq_false_iff.2 fun h => ?_
  obtain ⟨rest, _, same⟩ := below_iff.1 h
  simp only [Issue.at.injEq, List.append_assoc] at same
  have size := congrArg List.length same.1
  simp at size

/-- The issues about a place and about what lies below it. -/
def under (place : Path) (issues : List Issue) : List Issue := issues.filter (below place)

theorem under_eq_nil {place : Path} {issues : List Issue}
    (h : ∀ i ∈ issues, i.below place = false) : under place issues = [] :=
  List.filter_eq_nil_iff.2 fun i hi => by simp [h i hi]

theorem under_append (place : Path) (is js : List Issue) :
    under place (is ++ js) = under place is ++ under place js := List.filter_append _ _

theorem under_flatMap {α : Type} (place : Path) (f : α → List Issue) (as : List α) :
    under place (as.flatMap f) = as.flatMap fun a => under place (f a) := List.filter_flatMap

end Issue

/-- What a check knows of the documents that it is for: the fields of a record, with whether they
are required, the items of a list, and scalars, which have no fields. -/
inductive Shape where
  | scalar
  | items (each : Shape)
  | record (members : List (Text × Bool × Shape))

namespace Shape

/-- The way leads to a field, which is required or not; no item of a list is. -/
inductive Field : Shape → Path → Bool → Prop
  | member {name : Text} {needed : Bool} {s : Shape} {ms : List (Text × Bool × Shape)} :
      (name, needed, s) ∈ ms → Field (record ms) [.text name] needed
  | within {name : Text} {required needed : Bool} {s : Shape}
      {ms : List (Text × Bool × Shape)} {k : Key} {p : Path} :
      (name, required, s) ∈ ms → Field s (k :: p) needed →
        Field (record ms) (.text name :: k :: p) needed
  | item {s : Shape} (i : Nat) : Field (items s) [.int i] false
  | inside {s : Shape} (i : Nat) {needed : Bool} {k : Key} {p : Path} :
      Field s (k :: p) needed → Field (items s) (.int i :: k :: p) needed

/-- The kind that a value of the shape is of, where the shape says it. -/
def Admits : Shape → Kind → Prop
  | scalar, _ => True
  | items _, kind => kind = .list
  | record _, kind => kind = .object

/-- A field of a record is a member, or a field of a member. -/
theorem Field.of_record {ms : List (Text × Bool × Shape)} {p : Path} {needed : Bool}
    (field : (record ms).Field p needed) : ∃ name required s q, p = .text name :: q ∧
      (name, required, s) ∈ ms ∧ ((q = [] ∧ required = needed) ∨ s.Field q needed) := by
  cases field with
  | member known => exact ⟨_, _, _, [], rfl, known, Or.inl ⟨rfl, rfl⟩⟩
  | within known field => exact ⟨_, _, _, _, rfl, known, Or.inr field⟩

/-- A field of a list is an item, or a field of an item. -/
theorem Field.of_items {s : Shape} {p : Path} {needed : Bool} (field : (items s).Field p needed) :
    ∃ (i : Nat) (q : Path), p = .int i :: q ∧ ((q = [] ∧ needed = false) ∨ s.Field q needed) := by
  cases field with
  | item i => exact ⟨i, [], rfl, Or.inl ⟨rfl, rfl⟩⟩
  | inside i field => exact ⟨i, _, rfl, Or.inr field⟩

theorem Field.exists_cons {s : Shape} {p : Path} {needed : Bool} (field : s.Field p needed) :
    ∃ k q, p = k :: q := by
  cases field <;> exact ⟨_, _, rfl⟩

theorem Field.fits {s : Shape} {kind : Kind} {k : Key} {p : Path} {needed : Bool} {v : Value}
    (field : s.Field (k :: p) needed) (admits : s.Admits kind) (holds : v.holds k = true) :
    v.fits kind = true := by
  cases field <;> cases admits <;> exact holds

end Shape

/-- The issues about each field go by what stands there, and those about required fields that are
missing are among them. -/
structure Reports (root : Path) (issues : Value → List Issue) (s : Shape) : Prop where
  alone : ∀ {p needed}, s.Field p needed → ∀ {v w : Value}, v.WellFormed → w.WellFormed →
    v.Opens p → w.Opens p → Value.AgreeAt p v w →
      Issue.under (root ++ p) (issues v) = Issue.under (root ++ p) (issues w)
  missing : ∀ {p}, s.Field p true → ∀ {v : Value}, v.Opens p → v.at? p = none →
    .at (root ++ p) .missing ∈ issues v

namespace Check

def Rooted (c : Check Value) : Prop := ∀ root v, ∀ i ∈ c root v, i.below root = true

structure Conforms (c : Check Value) (s : Shape) : Prop where
  stable : Stable c
  rooted : Rooted c
  reports : ∀ root, Reports root (c root) s

namespace Rooted

variable {c d : Check Value}

/-- A check that is about the place of the document only. -/
theorem of_here (h : ∀ root v, ∀ i ∈ c root v, ∃ problem, i = .at root problem) : Rooted c := by
  intro root v i hi
  obtain ⟨problem, rfl⟩ := h root v i hi
  exact Issue.below_here _ _

theorem both {cs : List (Check Value)} (h : ∀ c ∈ cs, Rooted c) : Rooted (both cs) := by
  intro root v i hi
  obtain ⟨c, hc, hi⟩ := List.mem_flatMap.1 hi
  exact h c hc root v i hi

theorem and (hc : Rooted c) (hd : Rooted d) : Rooted (c.and d) := fun root v i hi =>
  (List.mem_append.1 hi).elim (hc root v i) (hd root v i)

theorem member_below (h : Rooted c) {needed : Bool} {key : Text} {kind : Kind} {root : Path}
    {v : Value} : ∀ i ∈ member needed key kind c root v, i.below (root.member key) = true := by
  intro i hi
  unfold Check.member at hi
  split at hi
  · split at hi
    · rw [List.mem_singleton.1 hi]
      exact Issue.below_here _ _
    · cases hi
  · split at hi
    · exact h _ _ i hi
    · rw [List.mem_singleton.1 hi]
      exact Issue.below_here _ _

theorem member (h : Rooted c) (needed : Bool) (key : Text) (kind : Kind) :
    Rooted (member needed key kind c) := fun _ _ i hi =>
  Issue.below_of_append (h.member_below i hi)

theorem each (h : Rooted c) : Rooted (each c) := by
  intro root v i hi
  obtain ⟨p, -, hi⟩ := List.mem_flatMap.1 hi
  exact Issue.below_of_append (h _ _ i hi)

theorem onlyMembers (allowed : List Text) : Rooted (onlyMembers allowed) := by
  intro root v i hi
  obtain ⟨k, -, rfl⟩ := List.mem_map.1 hi
  exact Issue.below_iff.2 ⟨[k], _, rfl⟩

theorem object (h : Rooted c) : Rooted (object c) := by
  intro root v i hi
  unfold Check.object at hi
  split at hi
  · exact h root v i hi
  · rw [List.mem_singleton.1 hi]
    exact Issue.below_here _ _

end Rooted

section

variable {c : Check Value} {s : Shape} {root q : Path} {v w : Value}

/-- What a conforming check finds about its document, or about a field of it, goes by what is there.
-/
theorem Conforms.alone (h : Conforms c s) (field : q = [] ∨ ∃ needed, s.Field q needed)
    (hv : v.WellFormed) (hw : w.WellFormed) (opens : v.Opens q) (opens' : w.Opens q)
    (agree : Value.AgreeAt q v w) :
    Issue.under (root ++ q) (c root v) = Issue.under (root ++ q) (c root w) := by
  obtain rfl | ⟨needed, field⟩ := field
  · obtain ⟨alike⟩ := agree
    have same := (Json.alike_iff_sorted hv hw).1 alike
    rw [← h.stable root v hv, same, h.stable root w hw]
  · exact (h.reports root).alone field hv hw opens opens' agree

theorem member_eq {needed : Bool} {key : Text} {kind : Kind} (found : v.member? key = some w) :
    member needed key kind c root v =
      if w.fits kind = true then c (root.member key) w
      else [.at (root.member key) (.wrongKind kind.name w.typeName)] := by
  simp only [member, document_member, found]
  rfl

theorem fits_of_agree {kind : Kind} (hv : v.WellFormed) (hw : w.WellFormed) (opens : v.Opens q)
    (opens' : w.Opens q) (agree : Value.AgreeAt q v w) : v.fits kind = w.fits kind := by
  cases q with
  | nil =>
      obtain ⟨alike⟩ := agree
      rw [← Value.fits_sorted, (Json.alike_iff_sorted hv hw).1 alike, Value.fits_sorted]
  | cons k q => exact Value.fits_of_holds opens.1 opens'.1 kind

theorem typeName_of_alike (hv : v.WellFormed) (hw : w.WellFormed) (alike : v.Alike w) :
    v.typeName = w.typeName := by
  rw [← Value.typeName_sorted, (Json.alike_iff_sorted hv hw).1 alike, Value.typeName_sorted]

/-- What a member check says below a field depends on the value at that field only. -/
theorem member_alone (h : Conforms c s) (field : q = [] ∨ ∃ needed, s.Field q needed)
    {needed : Bool} {key : Text} {kind : Kind} (hv : v.WellFormed) (hw : w.WellFormed)
    (opens : v.Opens (.text key :: q)) (opens' : w.Opens (.text key :: q))
    (agree : Value.AgreeAt (.text key :: q) v w) :
    Issue.under (root ++ .text key :: q) (member needed key kind c root v) =
      Issue.under (root ++ .text key :: q) (member needed key kind c root w) := by
  obtain ⟨absent, absent'⟩ | ⟨x, y, found, found', opens, opens', agree⟩ :=
    agree.children opens opens'
  · have absent : v.member? key = none := absent
    have absent' : w.member? key = none := absent'
    simp only [member, document_member, absent, absent']
  · have hx := Value.child_wellFormed hv found
    have hy := Value.child_wellFormed hw found'
    rw [member_eq found, member_eq found', fits_of_agree hx hy opens opens' agree,
      ← Path.member_append]
    split
    · exact h.alone field hx hy opens opens' agree
    -- A member of the wrong kind is one issue about the member itself, and none about what is below.
    · cases q with
      | nil =>
          obtain ⟨alike⟩ := agree
          rw [typeName_of_alike hx hy alike]
      | cons k q =>
          have above (problem : Problem) :
              Issue.under (root.member key ++ k :: q) [.at (root.member key) problem] = [] :=
            Issue.under_eq_nil (List.forall_mem_singleton.2 (Issue.not_below_end _ _ _ _))
          rw [above, above]

/-- A missing member that is needed is reported at its own path. -/
theorem member_missing (h : Conforms c s) {kind : Kind} (admits : s.Admits kind) {needed : Bool}
    {key : Text} {k : Key} (field : s.Field (k :: q) true)
    (opens : v.Opens (.text key :: k :: q)) (absent : v.at? (.text key :: k :: q) = none) :
    .at (root ++ .text key :: k :: q) .missing ∈ member needed key kind c root v := by
  obtain ⟨x, found, opens, absent⟩ := opens.next absent
  rw [member_eq found, if_pos (field.fits admits opens.1), ← Path.member_append]
  exact (h.reports _).missing field opens absent

end

def Fills (c : Check Value) (m : Text × Bool × Shape) : Prop :=
  ∃ kind d, c = member m.2.1 m.1 kind d ∧ Conforms d m.2.2 ∧ m.2.2.Admits kind

section

variable {c : Check Value} {m : Text × Bool × Shape} {name : Text} {needed : Bool} {s : Shape}
  {root q : Path} {v w : Value}

/-- The check of another member finds nothing about this one. -/
theorem Fills.alone (fills : Fills c m) (own : m.1 = name → m = (name, needed, s))
    (field : q = [] ∨ ∃ needed, s.Field q needed) (hv : v.WellFormed) (hw : w.WellFormed)
    (opens : v.Opens (.text name :: q)) (opens' : w.Opens (.text name :: q))
    (agree : Value.AgreeAt (.text name :: q) v w) :
    Issue.under (root ++ .text name :: q) (c root v) =
      Issue.under (root ++ .text name :: q) (c root w) := by
  obtain ⟨kind, d, rfl, conforms, -⟩ := fills
  by_cases same : m.1 = name
  · cases own same
    exact member_alone conforms field hv hw opens opens' agree
  · have elsewhere (u : Value) : Issue.under (root ++ .text name :: q)
        (member m.2.1 m.1 kind d root u) = [] :=
      Issue.under_eq_nil fun i hi =>
        Issue.not_below_of_ne (p := []) (fun h => same (Key.text.inj h))
          (conforms.rooted.member_below i hi)
    exact (elsewhere v).trans (elsewhere w).symm

theorem Fills.missing {required : Bool} (fills : Fills c (name, required, s))
    (field : (q = [] ∧ required = true) ∨ s.Field q true)
    (opens : v.Opens (.text name :: q)) (absent : v.at? (.text name :: q) = none) :
    .at (root ++ .text name :: q) .missing ∈ c root v := by
  obtain ⟨kind, d, rfl, conforms, admits⟩ := fills
  obtain ⟨rfl, rfl⟩ | field := field
  · have none : v.member? name = none := by simpa [Value.at?, Value.child?] using absent
    simp only [member, document_member, none, if_true]
    exact List.mem_singleton_self _
  · obtain ⟨k, r, rfl⟩ := field.exists_cons
    exact member_missing conforms admits field opens absent

end

theorem forall₂_mem {α β : Type} {R : α → β → Prop} {as : List α} {bs : List β}
    (h : List.Forall₂ R as bs) :
    (∀ a ∈ as, ∃ b ∈ bs, R a b) ∧ ∀ b ∈ bs, ∃ a ∈ as, R a b := by
  induction h with
  | nil => exact ⟨List.forall_mem_nil _, List.forall_mem_nil _⟩
  | cons related _ ih =>
      refine ⟨List.forall_mem_cons.2 ⟨⟨_, List.mem_cons_self, related⟩, fun a ha => ?_⟩,
        List.forall_mem_cons.2 ⟨⟨_, List.mem_cons_self, related⟩, fun b hb => ?_⟩⟩
      · obtain ⟨b, hb, related⟩ := ih.1 a ha
        exact ⟨b, List.mem_cons_of_mem _ hb, related⟩
      · obtain ⟨a, ha, related⟩ := ih.2 b hb
        exact ⟨a, List.mem_cons_of_mem _ ha, related⟩

/-- What stands at one index only is all that is left of a walk over a list. -/
theorem flatMap_zipIdx {α β : Type} {f : α × Nat → List β} {i : Nat}
    (others : ∀ a j, j ≠ i → f (a, j) = []) (as : List α) (n : Nat) :
    (as.zipIdx n).flatMap f =
      if n ≤ i then (as[i - n]?.map fun a => f (a, i)).getD [] else [] := by
  -- The walk may start at any index, since the rest of the list starts one further on.
  induction as generalizing n with
  | nil => simp
  | cons a as ih =>
      rw [List.zipIdx_cons, List.flatMap_cons, ih]
      obtain less | same | more := Nat.lt_trichotomy n i
      · have rest : i - n = (i - (n + 1)) + 1 := by omega
        rw [others a n (Nat.ne_of_lt less), if_pos (Nat.succ_le_of_lt less),
          if_pos (Nat.le_of_lt less), rest, List.getElem?_cons_succ, List.nil_append]
      · subst same
        rw [if_neg (Nat.not_succ_le_self n), if_pos (Nat.le_refl n), Nat.sub_self, List.append_nil]
        rfl
      · rw [others a n (Nat.ne_of_gt more), if_neg (by omega), if_neg (by omega), List.nil_append]

namespace Conforms

variable {c : Check Value} {s : Shape} {ms : List (Text × Bool × Shape)}

theorem scalar (stable : Stable c) (rooted : Rooted c) : Conforms c .scalar :=
  ⟨stable, rooted, fun _ => ⟨(nomatch ·), (nomatch ·)⟩⟩

/-- A record whose members are distinct conforms once each member check does. -/
theorem record {cs : List (Check Value)} (distinct : (ms.map Prod.fst).Nodup)
    (fills : List.Forall₂ Fills cs ms) : Conforms (both cs) (.record ms) := by
  obtain ⟨filled, fillers⟩ := forall₂_mem fills
  refine ⟨.both fun c hc => ?_, .both fun c hc => ?_, fun root =>
    ⟨fun {p needed} field {v w} hv hw opens opens' agree => ?_,
      fun {p} field {v} opens absent => ?_⟩⟩
  · obtain ⟨_, -, _, _, rfl, conforms, -⟩ := filled c hc
    exact conforms.stable.member _ _ _
  · obtain ⟨_, -, _, _, rfl, conforms, -⟩ := filled c hc
    exact conforms.rooted.member _ _ _
  · obtain ⟨name, required, s, q, rfl, known, inner⟩ := field.of_record
    have inner : q = [] ∨ ∃ needed, s.Field q needed := inner.imp And.left fun inner => ⟨_, inner⟩
    rw [both, both, Issue.under_flatMap, Issue.under_flatMap]
    refine List.flatMap_congr fun c hc => ?_
    obtain ⟨m, known', fills⟩ := filled c hc
    exact fills.alone (List.inj_on_of_nodup_map distinct known' known) inner hv hw opens
      opens' agree
  · obtain ⟨name, required, s, q, rfl, known, inner⟩ := field.of_record
    obtain ⟨c, hc, fills⟩ := fillers _ known
    exact List.mem_flatMap.2 ⟨c, hc, fills.missing inner opens absent⟩

/-- Unknown members are issues of their own, apart from those of the known ones. -/
theorem only {allowed : List Text} (known : ∀ m ∈ ms, m.1 ∈ allowed)
    (h : Conforms c (.record ms)) : Conforms ((onlyMembers allowed).and c) (.record ms) := by
  refine ⟨(Stable.onlyMembers allowed).and h.stable, (Rooted.onlyMembers allowed).and h.rooted,
    fun root => ⟨fun {p needed} field {v w} hv hw opens opens' agree => ?_,
      fun {p} field {v} opens absent =>
        List.mem_append_right _ ((h.reports root).missing field opens absent)⟩⟩
  have apart {u : Value} (opens : u.Opens p) :
      Issue.under (root ++ p) (onlyMembers allowed root u) = [] := by
    obtain ⟨name, required, s, q, rfl, mem, -⟩ := field.of_record
    obtain ⟨ns, rfl⟩ := fits_object.1 opens.1
    refine Issue.under_eq_nil fun i hi => ?_
    rw [onlyMembers_object] at hi
    obtain ⟨other, unknown, rfl⟩ := List.mem_map.1 hi
    have ne : Key.text other ≠ .text name := fun same =>
      (mem_unknownNames.1 unknown).2 (Key.text.inj same ▸ known _ mem)
    have here : (Issue.at (root.member other) .unknownProperty).below (root.member other) = true :=
      Issue.below_here _ _
    exact Issue.not_below_of_ne (p := []) ne here
  rw [Check.and, Check.and, Issue.under_append, Issue.under_append, apart opens, apart opens',
    (h.reports root).alone field hv hw opens opens' agree]

/-- Of the issues about a list, those at an index are the ones of its item. -/
theorem under_each (h : Rooted c) (root q : Path) (i : Nat) (v : Value) :
    Issue.under (root ++ .int i :: q) (each c root v) =
      (v.items[i]?.map fun x => Issue.under (root.item i ++ q) (c (root.item i) x)).getD [] := by
  have others (x : Value) (j : Nat) (other : j ≠ i) :
      Issue.under (root ++ .int i :: q) (c (root.item j) x) = [] :=
    Issue.under_eq_nil fun issue hi => by
      have ne : Key.int j ≠ .int i := fun same => other (Int.ofNat.inj (Key.int.inj same))
      exact Issue.not_below_of_ne (p := []) ne (h _ x issue hi)
  rw [each, Issue.under_flatMap]
  refine (flatMap_zipIdx (f := fun p => Issue.under (root ++ .int i :: q) (c (root.item p.2) p.1))
    others v.items 0).trans ?_
  rw [if_pos (Nat.zero_le i), Nat.sub_zero, Path.item_append]

theorem items (h : Conforms c s) : Conforms (each c) (.items s) := by
  refine ⟨h.stable.each, h.rooted.each, fun root =>
    ⟨fun {p needed} field {v w} hv hw opens opens' agree => ?_,
      fun {p} field {v} opens absent => ?_⟩⟩
  · obtain ⟨i, q, rfl, inner⟩ := field.of_items
    rw [under_each h.rooted, under_each h.rooted]
    obtain ⟨absent, absent'⟩ | ⟨x, y, found, found', opens, opens', agree⟩ :=
      agree.children opens opens'
    · have absent : v.items[i]? = none := absent
      have absent' : w.items[i]? = none := absent'
      rw [absent, absent']
    · have hx := Value.child_wellFormed hv found
      have hy := Value.child_wellFormed hw found'
      have found : v.items[i]? = some x := found
      have found' : w.items[i]? = some y := found'
      rw [found, found']
      exact h.alone (inner.imp And.left fun inner => ⟨_, inner⟩) hx hy opens opens' agree
  · obtain ⟨i, q, rfl, ⟨-, required⟩ | inner⟩ := field.of_items
    · cases required
    · obtain ⟨k, r, rfl⟩ := inner.exists_cons
      obtain ⟨x, found, opens, absent⟩ := opens.next absent
      have found : v.items[i]? = some x := found
      rw [← Path.item_append]
      exact List.mem_flatMap.2 ⟨(x, i), List.mk_mem_zipIdx_iff_getElem?.2 found,
        (h.reports _).missing inner opens absent⟩

theorem object (h : Conforms c (.record ms)) : Conforms (object c) (.record ms) := by
  have opened {root : Path} {p : Path} {needed : Bool} {v : Value}
      (field : (Shape.record ms).Field p needed) (opens : v.Opens p) :
      Check.object c root v = c root v := by
    obtain ⟨name, required, s, q, rfl, -, -⟩ := field.of_record
    exact if_pos opens.1
  refine ⟨h.stable.object, h.rooted.object, fun root =>
    ⟨fun {p needed} field {v w} hv hw opens opens' agree => ?_,
      fun {p} field {v} opens absent => ?_⟩⟩
  · rw [opened field opens, opened field opens']
    exact (h.reports root).alone field hv hw opens opens' agree
  · rw [opened field opens]
    exact (h.reports root).missing field opens absent

end Conforms

end Check

end ReleaseGate
