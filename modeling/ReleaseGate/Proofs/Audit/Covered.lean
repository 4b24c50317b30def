import ReleaseGate.Proofs.Audit.Entry
import ReleaseGate.Proofs.Json.Alike

/-!
What sorted text identifies. Two values have one canonical text exactly if they differ at most in
the order of members, at any depth, and the text that the hash of an entry covers identifies the
previous hash and the rest of the record in the same way.
-/

namespace ReleaseGate.Audit

/-- Two records are hashed over one text exactly if their links are alike, and their other members
too. -/
theorem hashedText_eq_iff {r s : List (Text × Value)} {p q : Value}
    (hr : (Value.object r).WellFormed) (hs : (Value.object s).WellFormed) (hp : p.WellFormed)
    (hq : q.WellFormed) :
    hashedText r p = hashedText s q ↔
      p.Alike q ∧ (Value.object (unbound r)).Alike (.object (unbound s)) := by
  rw [hashedText, hashedText, bound, bound, Json.lineText_eq_iff (Value.putMember_wellFormed hp hr)
    (Value.putMember_wellFormed hq hs)]
  exact Json.alike_putMember hp hq hr hs

/-- Canonical text forgets the order of members, at every depth, and nothing else, not even whether
a number is a whole one or a double. The text that a hash covers forgets besides only a previous
hash that the record brings, since the one of the entry takes its place. -/
theorem sorted_text_faithful {v w : Value} (hv : v.WellFormed) (hw : w.WellFormed)
    {r s : List (Text × Value)} (hr : (Value.object r).WellFormed)
    (hs : (Value.object s).WellFormed) {p q : Value} (hp : p.WellFormed) (hq : q.WellFormed) :
    (Json.canonicalText v = Json.canonicalText w ↔ v.Alike w) ∧
      (hashedText r p = hashedText s q ↔
        p.Alike q ∧ (Value.object (unbound r)).Alike (.object (unbound s))) :=
  ⟨Json.canonicalText_eq_iff hv hw, hashedText_eq_iff hr hs hp hq⟩

def nested (outer inner : List (Text × Value) → List (Text × Value)) : Value :=
  .object (outer [("b", .list [.object (inner [("y", .int 1), ("x", .null)])]),
    ("a", .float .one)])

theorem sorted_text_faithful_turned :
    let v := nested id id
    let w := nested List.reverse List.reverse
    let r : List (Text × Value) :=
      [("b", .int 1), ("a", .int 2), (prevHashField, .str "of another log")]
    let s : List (Text × Value) := [("a", .int 2), ("b", .int 1)]
    let p := Value.str genesisHash
    v.WellFormed ∧ w.WellFormed ∧ (Value.object r).WellFormed ∧ (Value.object s).WellFormed ∧
      p.WellFormed ∧ v ≠ w ∧ Json.canonicalText v = Json.canonicalText w ∧
      hashedText r p = hashedText s p := by
  intro v w r s p
  have hv : v.WellFormed := by
    simp [v, nested, Value.WellFormed, Value.ItemsWellFormed, Value.MembersWellFormed]
  have hw : w.WellFormed := by
    simp [w, nested, Value.WellFormed, Value.ItemsWellFormed, Value.MembersWellFormed]
  have hr : (Value.object r).WellFormed :=
    Value.wellFormed_object.2 ⟨by decide, by simp [r, Value.WellFormed]⟩
  have hs : (Value.object s).WellFormed :=
    Value.wellFormed_object.2 ⟨by decide, by simp [s, Value.WellFormed]⟩
  have alike : v.Alike w := (Json.alike_iff_sorted hv hw).2 rfl
  have records : (Value.object (unbound r)).Alike (.object (unbound s)) :=
    (Json.alike_iff_sorted (Value.filter_wellFormed _ hr) (Value.filter_wellFormed _ hs)).2 rfl
  obtain ⟨canonical, hashed⟩ := sorted_text_faithful hv hw hr hs (p := p) (q := p) trivial trivial
  refine ⟨hv, hw, hr, hs, trivial, ?_, canonical.2 alike, hashed.2 ⟨Value.str_alike.2 rfl, records⟩⟩
  simp [v, w, nested]

end ReleaseGate.Audit
