import ReleaseGate.Digest.Sha256

/-!
Digests of texts: 64 lowercase hexadecimal digits, and a function of the bytes that spell the
characters.
-/

namespace ReleaseGate.Digest

def hexDigitChars : List Char := "0123456789abcdef".toList

theorem digitChar_hex : ∀ n < 16, Nat.digitChar n ∈ hexDigitChars := by
  decide

theorem toDigits_hex (n : Nat) : ∀ c ∈ Nat.toDigits 16 n, c ∈ hexDigitChars := by
  induction n using Nat.strongRecOn with
  | ind n ih =>
      by_cases small : n < 16
      · rw [Nat.toDigits_of_lt_base small]
        exact fun c hc => List.mem_singleton.1 hc ▸ digitChar_hex n small
      · rw [Nat.toDigits_of_base_le (by decide) (by omega)]
        refine List.forall_mem_append.2 ⟨ih (n / 16) (by omega), fun c hc => ?_⟩
        exact List.mem_singleton.1 hc ▸ digitChar_hex _ (Nat.mod_lt n (by decide))

theorem toDigits_length {n k : Nat} (hn : n < Nat.pow 16 (k + 1)) :
    (Nat.toDigits 16 n).length ≤ k + 1 := by
  induction k generalizing n with
  | zero =>
      refine Nat.le_of_eq ?_
      rw [Nat.toDigits_of_lt_base (by simpa using hn), List.length_singleton]
  | succ k ih =>
      by_cases small : n < 16
      · rw [Nat.toDigits_of_lt_base small, List.length_singleton]
        omega
      · have step : Nat.pow 16 (k + 2) = Nat.pow 16 (k + 1) * 16 := rfl
        have less : n / 16 < Nat.pow 16 (k + 1) := by
          rw [step] at hn
          omega
        have shorter := ih less
        rw [Nat.toDigits_of_base_le (by decide) (by omega), List.length_append,
          List.length_singleton]
        omega

theorem hexWord_hex (w : UInt32) : ∀ c ∈ hexWord w, c ∈ hexDigitChars := by
  refine List.forall_mem_append.2 ⟨fun c hc => ?_, toDigits_hex w.toNat⟩
  rw [(List.mem_replicate.1 hc).2]
  decide

theorem hexWord_length (w : UInt32) : (hexWord w).length = 8 := by
  have few : (Nat.toDigits 16 w.toNat).length ≤ 8 :=
    toDigits_length (k := 7) (Nat.lt_of_lt_of_le w.toNat_lt (by decide))
  rw [hexWord, List.length_append, List.length_replicate]
  omega

theorem hexDigest_hex (bytes : List UInt8) : ∀ c ∈ (hexDigest bytes).toList, c ∈ hexDigitChars := by
  rw [hexDigest, String.toList_ofList]
  intro c hc
  obtain ⟨w, -, hw⟩ := List.mem_flatMap.1 hc
  exact hexWord_hex w c hw

theorem hexDigest_length (bytes : List UInt8) : (hexDigest bytes).toList.length = 64 := by
  simp [hexDigest, hexWord_length]

theorem sha256_hex (s : String) :
    (sha256 s).toList.length = 64 ∧ ∀ c ∈ (sha256 s).toList, c ∈ hexDigitChars :=
  ⟨hexDigest_length _, hexDigest_hex _⟩

theorem toList_loop_eq (bytes : ByteArray) (i : Nat) (before : List UInt8) :
    ByteArray.toList.loop bytes i before = before.reverse ++ bytes.data.toList.drop i := by
  have size : bytes.size = bytes.data.toList.length := rfl
  induction h : bytes.size - i generalizing i before with
  | zero =>
      rw [ByteArray.toList.loop, if_neg (by omega), List.drop_eq_nil_of_le (by omega),
        List.append_nil]
  | succ n ih =>
      have inside : i < bytes.data.toList.length := by omega
      have byte : bytes.get! i = bytes.data.toList[i] := getElem!_pos bytes.data i inside
      rw [ByteArray.toList.loop, if_pos (by omega), ih _ _ (by omega), byte,
        List.drop_eq_getElem_cons inside, List.reverse_cons, List.append_assoc,
        List.singleton_append]

/-- The bytes of a text are those of its characters, one after another. -/
theorem sha256_ofList (cs : List Char) :
    sha256 (String.ofList cs) = hexDigest (cs.flatMap String.utf8EncodeChar) := by
  have bytes : (String.ofList cs).toUTF8 = (cs.flatMap String.utf8EncodeChar).toByteArray := rfl
  rw [sha256, bytes, ByteArray.toList, toList_loop_eq, List.reverse_nil, List.nil_append,
    List.drop_zero, List.toList_data_toByteArray]

end ReleaseGate.Digest
