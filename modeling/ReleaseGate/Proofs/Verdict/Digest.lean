import ReleaseGate.Proofs.Json.Encodable
import ReleaseGate.Proofs.Steps
import ReleaseGate.Proofs.Verdict.Parts

/-!
The digest that identifies a verdict. There is one exactly for the verdicts without half a surrogate
pair in them.
-/

namespace ReleaseGate.Verdict

theorem contentHash_ok {verdict : Value} (encodable : verdict.isEncodable = true) :
    ∃ s, Json.canonicalText verdict = .plain s ∧
      contentHash verdict = .ok (Digest.sha256 s) := by
  rw [← Json.canonicalText_isString] at encodable
  obtain ⟨s, text⟩ := Text.isString_iff.1 encodable
  exact ⟨s, text, by rw [contentHash, text]; rfl⟩

/-- A verdict with a lone surrogate has no content hash. -/
theorem contentHash_error {verdict : Value} (h : verdict.isEncodable = false) :
    contentHash verdict = .error .notEncodable := by
  rw [← Json.canonicalText_isString] at h
  rw [contentHash, Text.encoded_error h]
  rfl

theorem contentHash_eq_ok {verdict : Value} {hash : String} :
    contentHash verdict = .ok hash ↔
      ∃ s, Json.canonicalText verdict = .plain s ∧ hash = Digest.sha256 s := by
  constructor
  · intro h
    obtain ⟨s, encoded, rfl⟩ := map_eq_ok h
    exact ⟨s, Text.encoded_eq_ok.1 encoded, rfl⟩
  · rintro ⟨s, text, rfl⟩
    rw [contentHash, text]
    rfl

theorem contentHash_eq {verdict : Value} (encodable : verdict.isEncodable = true) :
    contentHash verdict = .ok (Digest.hexDigest
      (Json.utf8Bytes (Json.write Json.compact (Json.sorted verdict)))) := by
  refine Json.digest_ofList ?_
  rwa [Json.write_isChar Json.compact_plain, Json.sorted_isEncodable]

theorem entry_isEncodable {verdict : Value} (h : verdict.isEncodable = true) (part key : Text) :
    (entry verdict part key).isEncodable = true := by
  unfold entry
  cases outer : verdict.member? part with
  | none => rfl
  | some w =>
      cases inner : w.member? key with
      | none => simp [inner, Value.isEncodable]
      | some x =>
          simpa [inner] using Value.member_isEncodable (Value.member_isEncodable h outer) inner

/-- The actions of the factory are written in strings. -/
theorem factoryAction_isEncodable {action : Value} (h : action.OneOf Contract.factoryActions) :
    action.isEncodable = true := by
  have table : ∀ a ∈ Contract.factoryActions, a.isString = true := by decide
  obtain ⟨a, listed, rfl⟩ := h
  exact table a listed

end ReleaseGate.Verdict
