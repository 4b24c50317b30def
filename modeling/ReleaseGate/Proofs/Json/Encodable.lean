import ReleaseGate.Proofs.Digest.Sha256
import ReleaseGate.Proofs.Json.Order
import ReleaseGate.Value.Access

/-!
Documents whose JSON text is a string. Writing spells every code point by itself or by characters,
so the text of a document is a string exactly where all texts and names in the document are.
-/

namespace ReleaseGate

/-- The first half of a surrogate pair, without the second one. -/
def Text.firstHalf : Text := .lone "" ⟨0, by decide⟩ ""

namespace Value

mutual

/-- No text in the document and no name of a member holds half a surrogate pair. -/
def isEncodable : Value → Bool
  | .str s => s.isString
  | .list vs => itemsEncodable vs
  | .object ms => membersEncodable ms
  | _ => true

def itemsEncodable : List Value → Bool
  | [] => true
  | v :: vs => isEncodable v && itemsEncodable vs

def membersEncodable : List (Text × Value) → Bool
  | [] => true
  | (k, v) :: ms => k.isString && isEncodable v && membersEncodable ms

end

theorem itemsEncodable_eq (vs : List Value) : itemsEncodable vs = vs.all isEncodable := by
  induction vs with
  | nil => rfl
  | cons v vs ih => rw [itemsEncodable, ih, List.all_cons]

theorem membersEncodable_eq (ms : List (Text × Value)) :
    membersEncodable ms = ms.all fun m => m.1.isString && m.2.isEncodable := by
  induction ms with
  | nil => rfl
  | cons m ms ih => rw [membersEncodable, ih, List.all_cons]

@[simp] theorem isEncodable_str (s : Text) : (Value.str s).isEncodable = s.isString := rfl

@[simp] theorem isEncodable_bool (b : Bool) : (Value.bool b).isEncodable = true := rfl

theorem isEncodable_list (vs : List Value) :
    (Value.list vs).isEncodable = vs.all isEncodable := itemsEncodable_eq vs

theorem isEncodable_object (ms : List (Text × Value)) :
    (Value.object ms).isEncodable = ms.all fun m => m.1.isString && m.2.isEncodable :=
  membersEncodable_eq ms

theorem member_isEncodable {v w : Value} {key : Text} (h : v.isEncodable = true)
    (found : v.member? key = some w) : w.isEncodable = true := by
  cases v with
  | object ms =>
      rw [isEncodable_object, List.all_eq_true] at h
      exact (Bool.and_eq_true_iff.1 (h _ (mem_of_lookup found))).2
  | null | bool _ | int _ | float _ | str _ | list _ => cases found

theorem perm_isEncodable {ms ns : List (Text × Value)} (h : ms.Perm ns) :
    (Value.object ms).isEncodable = (Value.object ns).isEncodable := by
  rw [isEncodable_object, isEncodable_object, h.all_eq]

theorem subset_isEncodable {ms ns : List (Text × Value)} (sub : ns ⊆ ms)
    (h : (Value.object ms).isEncodable = true) : (Value.object ns).isEncodable = true := by
  rw [isEncodable_object, List.all_eq_true] at *
  exact fun m hm => h m (sub hm)

/-- Setting a member keeps an object encodable if the member is. -/
theorem putMember_isEncodable {key : Text} (name : key.isString = true) {v : Value}
    (hv : v.isEncodable = true) {ms : List (Text × Value)}
    (h : (Value.object ms).isEncodable = true) :
    (Value.object (putMember key v ms)).isEncodable = true := by
  rw [isEncodable_object, List.all_eq_true] at *
  intro m hm
  obtain rfl | old := mem_putMember hm
  · rw [name, hv]
    rfl
  · exact h m old

/-- A member that is put in takes the place of the one that was there. -/
theorem putMember_isEncodable_eq {key : Text} (name : key.isString = true) (v : Value)
    {ms : List (Text × Value)} (distinct : (names ms).Nodup) :
    (Value.object (putMember key v ms)).isEncodable =
      (v.isEncodable && (Value.object (ms.filter fun m => m.1 != key)).isEncodable) := by
  rw [perm_isEncodable (putMember_perm key v distinct), isEncodable_object, List.all_cons, name,
    Bool.true_and, ← isEncodable_object]

end Value

namespace Json

open Value (isEncodable)

/-- Escaping removes no lone surrogate: characters beyond ASCII are written as they are. -/
theorem escapedChar_isChar (c : CodePoint) : (escapedChar c).all CodePoint.isChar = c.isChar := by
  have digits (ds : List Char) : (ds.map CodePoint.char).all CodePoint.isChar = true := by
    simp [CodePoint.isChar]
  obtain ⟨e, h, -, listed⟩ | ⟨control, h⟩ | ⟨-, -, -, h⟩ := escapedChar_cases c
  · have table : ∀ p ∈ letterEscapes, p.1.isChar = true ∧ p.2.isChar = true := by decide
    obtain ⟨letter, meant⟩ := table _ listed
    simp only [h, List.all_cons, List.all_nil, letter, meant]
    rfl
  · cases c with
    | char c => simp only [h, List.all_cons, digits, CodePoint.isChar, Bool.and_self]
    | surrogate u =>
        have low : 0xD800 + u.val < 0x20 := control
        omega
  · rw [h, List.all_cons, List.all_nil, Bool.and_true]

theorem writeString_isChar (t : Text) :
    (writeString t.toList).all CodePoint.isChar = t.isString := by
  have spelled : (t.toList.flatMap escapedChar).all CodePoint.isChar =
      t.toList.all CodePoint.isChar := by
    rw [List.all_flatMap]
    simp only [escapedChar_isChar]
  rw [writeString, List.all_cons, List.all_append, spelled, Text.isString_eq_all]
  simp [CodePoint.isChar]

section

variable {l : Layout} (hl : l.Plain)
include hl

theorem separators_isChar : l.item.all CodePoint.isChar = true ∧ l.member.all CodePoint.isChar =
    true := by
  obtain ⟨⟨n, item⟩, m, member⟩ := hl
  rw [item, member]
  simp [CodePoint.isChar]

theorem writeItems_isChar {vs : List Value}
    (each : ∀ v ∈ vs, (write l v).all CodePoint.isChar = v.isEncodable) :
    (writeItems l vs).all CodePoint.isChar = vs.all isEncodable := by
  induction vs with
  | nil => rfl
  | cons v vs ih =>
      obtain ⟨first, rest⟩ := List.forall_mem_cons.1 each
      simp only [writeItems, List.all_append, (separators_isChar hl).1, first, ih rest,
        Bool.true_and, List.all_cons]

theorem writeMembers_isChar {ms : List (Text × Value)}
    (each : ∀ m ∈ ms, (write l m.2).all CodePoint.isChar = m.2.isEncodable) :
    (writeMembers l ms).all CodePoint.isChar = ms.all fun m => m.1.isString && m.2.isEncodable := by
  induction ms with
  | nil => rfl
  | cons m ms ih =>
      obtain ⟨k, v⟩ := m
      obtain ⟨first, rest⟩ := List.forall_mem_cons.1 each
      obtain ⟨item, member⟩ := separators_isChar hl
      simp only [writeMembers, List.all_append, item, member, writeString_isChar, first, ih rest,
        Bool.true_and, Bool.and_true, List.all_cons]

/-- The text of a value has bytes exactly if no text in it holds a lone surrogate. -/
theorem write_isChar (v : Value) : (write l v).all CodePoint.isChar = v.isEncodable := by
  have spelled (s : List Char) : (s.map CodePoint.char).all CodePoint.isChar = true := by
    simp [CodePoint.isChar]
  induction v with
  | null => rfl
  | bool b => cases b <;> rfl
  | int i => exact spelled _
  | float x => exact spelled _
  | str s => exact writeString_isChar s
  | list vs ih =>
      cases vs with
      | nil => rfl
      | cons v vs =>
          obtain ⟨first, rest⟩ := List.forall_mem_cons.1 ih
          simp only [write, Value.isEncodable_list, List.all_cons, List.all_append, List.all_nil,
            first, writeItems_isChar hl rest, CodePoint.isChar, Bool.true_and, Bool.and_true]
  | object ms ih =>
      cases ms with
      | nil => rfl
      | cons m ms =>
          obtain ⟨k, v⟩ := m
          obtain ⟨first, rest⟩ := List.forall_mem_cons.1 ih
          simp only [write, Value.isEncodable_object, List.all_cons, List.all_append, List.all_nil,
            first, writeMembers_isChar hl rest, writeString_isChar, (separators_isChar hl).2,
            CodePoint.isChar, Bool.true_and, Bool.and_true]

end

theorem sorted_isEncodable (v : Value) : (sorted v).isEncodable = v.isEncodable := by
  induction v with
  | null | bool _ | int _ | float _ | str _ => rfl
  | list vs ih =>
      rw [sorted, sortedItems_eq, Value.isEncodable_list, Value.isEncodable_list, Bool.eq_iff_iff]
      simp only [List.all_map, List.all_eq_true, Function.comp_apply]
      exact forall₂_congr fun v hv => by rw [ih v hv]
  | object ms ih =>
      rw [sorted, Value.isEncodable_object, Value.isEncodable_object,
        (sortedMembers_perm ms).all_eq, Bool.eq_iff_iff]
      simp only [List.all_map, List.all_eq_true, Function.comp_apply, sortedMember]
      exact forall₂_congr fun m hm => by rw [ih m hm]

def utf8Bytes (s : List CodePoint) : List UInt8 :=
  (s.filterMap CodePoint.char?).flatMap String.utf8EncodeChar

/-- A text without lone surrogates is hashed over its UTF-8 bytes. -/
theorem digest_ofList {s : List CodePoint} (h : s.all CodePoint.isChar = true) :
    (Text.ofList s).encoded.map Digest.sha256 = .ok (Digest.hexDigest (utf8Bytes s)) := by
  have chars : (s.filterMap CodePoint.char?).map .char = s := by
    induction s with
    | nil => rfl
    | cons c s ih =>
        rw [List.all_cons, Bool.and_eq_true_iff] at h
        cases c with
        | char d => simp [CodePoint.char?, ih h.2]
        | surrogate u => cases h.1
  rw [utf8Bytes, ← Digest.sha256_ofList, ← chars, filterMap_char, Text.ofList_map_char]
  rfl

/-- A canonical text has bytes exactly if its value is encodable. -/
theorem canonicalText_isString (v : Value) : (canonicalText v).isString = v.isEncodable := by
  rw [canonicalText, Text.isString_ofList, write_isChar compact_plain, sorted_isEncodable]

theorem lineText_isString (v : Value) : (lineText v).isString = v.isEncodable := by
  rw [lineText, Text.isString_ofList, write_isChar spaced_plain, sorted_isEncodable]

end Json

end ReleaseGate
