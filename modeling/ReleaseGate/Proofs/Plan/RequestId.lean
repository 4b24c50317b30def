import Mathlib.Data.Set.Function
import ReleaseGate.Proofs.Contract.Order
import ReleaseGate.Proofs.Json.Alike
import ReleaseGate.Proofs.Plan.Gate

/-!
What the id of a plan stands for. The text behind it joins the run, the digest of the verdict and
the final action. The last two are free of the separator, so all three can be told from the text,
whatever the run is called; and so plans share an id exactly if they carry out the same action on
one verdict.
-/

namespace ReleaseGate

open Verdict (entry runIdOf)

theorem Verdict.entry_sorted {verdict : Value} (h : verdict.WellFormed) (part key : Text) :
    entry (Json.sorted verdict) part key = Json.sorted (entry verdict part key) := by
  rw [entry, entry, Value.member?_sorted h]
  cases found : verdict.member? part with
  | none => rfl
  | some w =>
      simp only [Option.map_some, Option.bind_some,
        Value.member?_sorted (Value.member_wellFormed h found)]
      cases w.member? key <;> rfl

theorem Verdict.entry_of_alike {v w : Value} (hv : v.WellFormed) (hw : w.WellFormed)
    (alike : v.Alike w) {part key s : Text} (text : entry v part key = .str s) :
    entry w part key = .str s := by
  rw [← Value.sorted_eq_str, ← entry_sorted hw, ← (Json.alike_iff_sorted hv hw).1 alike,
    entry_sorted hv, text]
  rfl

/-- Texts joined by a separator that the later one is free of. -/
theorem append_cons_inj {α : Type} {xs ys us vs : List α} {a : α} (hus : a ∉ us) (hvs : a ∉ vs) :
    xs ++ a :: us = ys ++ a :: vs ↔ xs = ys ∧ us = vs := by
  constructor
  · intro same
    rcases List.append_eq_append_iff.1 same with ⟨ws, rfl, rest⟩ | ⟨ws, rfl, rest⟩
    all_goals
      cases ws with
      | nil => simpa [eq_comm] using rest
      | cons w ws =>
          rw [List.cons_append, List.cons.injEq] at rest
          simp [rest.2] at hus hvs
  · rintro ⟨rfl, rfl⟩
    rfl

namespace Plan

def requestText (verdict finalAction : Value) : Except Misfit Text :=
  (Verdict.contentHash verdict).map fun (hash : String) =>
    (runIdOf verdict).display ++ "|" ++ ↑hash ++ "|" ++ finalAction.display

/-- What an id shows of the digest of the text behind it. -/
def idDigits (s : String) : List Char := (Digest.sha256 s).toList.take 16

theorem requestIdOf_eq_ok {verdict : Value} {d : Decision} {id : String} :
    requestIdOf verdict d = .ok id ↔
      ∃ s : String, requestText verdict d.finalAction = .ok s ∧
        id = "AR-" ++ String.ofList (idDigits s) := by
  rw [requestIdOf, requestText]
  cases Verdict.contentHash verdict with
  | error m =>
      constructor
      · intro h
        cases h
      · rintro ⟨_, h, -⟩
        cases h
  | ok hash =>
      constructor
      · intro h
        obtain ⟨s, encoded, rfl⟩ := map_eq_ok h
        exact ⟨s, congrArg Except.ok (Text.encoded_eq_ok.1 encoded), rfl⟩
      · rintro ⟨s, text, rfl⟩
        exact congrArg (Except.map _) (Text.encoded_eq_ok.2 (Except.ok.inj text))

/-- The hash holds no separator, so the joined text is cut behind it. -/
theorem contentHash_unseparated {verdict : Value} {hash : String}
    (h : Verdict.contentHash verdict = .ok hash) : .char '|' ∉ Text.toList hash := by
  obtain ⟨s, -, rfl⟩ := Verdict.contentHash_eq_ok.1 h
  intro among
  obtain ⟨c, hex, same⟩ := List.mem_map.1 among
  cases same
  exact absurd ((Digest.sha256_hex s).2 _ hex) (by decide)

theorem action_unseparated {a : Value} (h : a.OneOf Contract.factoryActions) :
    .char '|' ∉ a.display.toList := by
  obtain ⟨s, member, rfl⟩ := h
  revert s
  decide

theorem display_inj {a b : Value} (ha : a.OneOf Contract.factoryActions)
    (hb : b.OneOf Contract.factoryActions) : a.display = b.display ↔ a = b := by
  obtain ⟨s, -, rfl⟩ := ha
  obtain ⟨t, -, rfl⟩ := hb
  exact (Value.str.injEq s t).symm ▸ Iff.rfl

/-- The run, the digest and the action are read off the text from its end. -/
theorem requestText_inj {v w a b : Value} {s t hv hw : String}
    (ha : a.OneOf Contract.factoryActions)
    (hb : b.OneOf Contract.factoryActions) (hashV : Verdict.contentHash v = .ok hv)
    (hashW : Verdict.contentHash w = .ok hw) (textV : requestText v a = .ok s)
    (textW : requestText w b = .ok t) :
    s = t ↔ ((runIdOf v).display = (runIdOf w).display ∧ hv = hw) ∧ a = b := by
  have joined {verdict action : Value} {hash text : String}
      (hashed : Verdict.contentHash verdict = .ok hash)
      (behind : requestText verdict action = .ok text) :
      Text.toList text = ((runIdOf verdict).display.toList ++ .char '|' :: Text.toList hash) ++
        .char '|' :: action.display.toList := by
    rw [requestText, hashed] at behind
    rw [← Except.ok.inj behind]
    simp
  have plain {x y : String} : (x : Text) = y ↔ x = y := by rw [Text.plain.injEq]
  rw [← plain, ← Text.toList_inj, joined hashV textV, joined hashW textW,
    append_cons_inj (action_unseparated ha) (action_unseparated hb),
    append_cons_inj (contentHash_unseparated hashV) (contentHash_unseparated hashW),
    Text.toList_inj, Text.toList_inj, Text.toList_inj, plain, display_inj ha hb]

/-- Two verdicts with one digest are alike, and alike ones are verdicts on one run. -/
theorem contentHash_eq_iff {v w : Value} {x y : String} (hv : v.WellFormed) (hw : w.WellFormed)
    (hashV : Verdict.contentHash v = .ok x) (hashW : Verdict.contentHash w = .ok y)
    (digests : Set.InjOn Digest.sha256
      {s | Json.canonicalText v = s ∨ Json.canonicalText w = s}) :
    x = y ↔ v.Alike w := by
  obtain ⟨s, textV, rfl⟩ := Verdict.contentHash_eq_ok.1 hashV
  obtain ⟨t, textW, rfl⟩ := Verdict.contentHash_eq_ok.1 hashW
  rw [← Json.canonicalText_eq_iff hv hw, textV, textW, Text.plain.injEq]
  exact digests.eq_iff (Or.inl textV) (Or.inr textW)

/-- The gate returns a plan for a verdict exactly if the verdict holds no half of a surrogate pair.
Two verdicts, each under its threshold, have plans with one id if and only if the verdicts differ at
most in the order of members and the gate has settled on the same action for both; where the digests
of the texts behind them tell these apart. -/
theorem requestId_identifies {v w s t : Value} (cleanV : Contract.verdictIssues v = [])
    (cleanW : Contract.verdictIssues w = []) (hv : v.WellFormed) (hw : w.WellFormed)
    (shareV : IsThreshold s) (shareW : IsThreshold t) {clock clock' : Clock}
    (proper : clock.Proper)
    (digests : Set.InjOn Digest.sha256
      {s | Json.canonicalText v = s ∨ Json.canonicalText w = s}) :
    ((∃ p after, (ofVerdict v s).run clock = (.ok p, after)) ↔ v.isEncodable = true) ∧
    ∀ p q after after', (ofVerdict v s).run clock = (.ok p, after) →
      (ofVerdict w t).run clock' = (.ok q, after') →
      Set.InjOn idDigits {text | requestText v p.finalAction = .ok ↑text ∨
        requestText w q.finalAction = .ok ↑text} →
      (p.requestId = q.requestId ↔ v.Alike w ∧ p.finalAction = q.finalAction) := by
  refine ⟨ofVerdict_returns_iff cleanV shareV proper, fun p q after after' ran ran' apart => ?_⟩
  obtain ⟨encodable, d, x, sound, named, -, rfl⟩ := ofVerdict_eq_ok cleanV shareV ran
  obtain ⟨encodable', d', y, sound', named', -, rfl⟩ := ofVerdict_eq_ok cleanW shareW ran'
  obtain ⟨_, -, hashV⟩ := Verdict.contentHash_ok encodable
  obtain ⟨_, -, hashW⟩ := Verdict.contentHash_ok encodable'
  obtain ⟨a, textV, rfl⟩ := requestIdOf_eq_ok.1 named
  obtain ⟨b, textW, rfl⟩ := requestIdOf_eq_ok.1 named'
  obtain ⟨run, runV, -⟩ := (Verdict.readable_of_clean cleanV).runId
  have sameRun (alike : v.Alike w) : (runIdOf v).display = (runIdOf w).display :=
    congrArg Value.display (runV.trans (Verdict.entry_of_alike hv hw alike runV).symm)
  calc Value.str (.plain ("AR-" ++ String.ofList (idDigits a))) =
        Value.str (.plain ("AR-" ++ String.ofList (idDigits b)))
      ↔ idDigits a = idDigits b := by
        rw [Value.str.injEq, Text.plain.injEq, String.append_right_inj, String.ofList_inj]
    _ ↔ a = b := apart.eq_iff (Or.inl textV) (Or.inr textW)
    _ ↔ ((runIdOf v).display = (runIdOf w).display ∧ _ = _) ∧ d.finalAction = d'.finalAction :=
        requestText_inj sound.final sound'.final hashV hashW textV textW
    _ ↔ v.Alike w ∧ d.finalAction = d'.finalAction := by
        rw [contentHash_eq_iff hv hw hashV hashW digests, and_iff_right_of_imp sameRun]

def separatedRun : Value :=
  .object (putMember "run" (.object [("run_id", .str "run|1"), ("repo", .str "shop"),
      ("pr_number", .int 1), ("head_sha", .str "c0ffee"),
      ("timestamp_utc", .str "2024-05-01T12:00:00Z")])
    (putMember "verdict" (.object [("proposed_action", .str "APPROVE_AUTOMERGE_DEPLOY"),
      ("confidence", .int 0), ("recommended_next_steps", .list [])]) Verdict.rollback.members))

def separatedRunTurned : Value := .object separatedRun.members.reverse

theorem separatedRun_clean : Contract.verdictIssues separatedRun = [] := by
  decide +kernel

theorem separatedRunTurned_clean : Contract.verdictIssues separatedRunTurned = [] := by
  decide +kernel

theorem separatedRun_wellFormed : separatedRun.WellFormed := by
  simp [separatedRun, Verdict.rollback, Value.members, putMember, Value.WellFormed,
    Value.MembersWellFormed, Value.ItemsWellFormed, Contract.changeFlags, Contract.scoreDimensions]

theorem separatedRunTurned_wellFormed : separatedRunTurned.WellFormed :=
  Value.perm_wellFormed (List.reverse_perm _).symm separatedRun_wellFormed

theorem separatedRun_alike : separatedRun.Alike separatedRunTurned :=
  (Json.alike_iff_sorted separatedRun_wellFormed separatedRunTurned_wellFormed).2
    (congrArg Value.object (Json.sortedMembers_congr ((List.reverse_perm _).symm.map _)
      (Value.wellFormed_object.1 separatedRun_wellFormed).1))

def separatedHash : String := "f4e2f4984ac02d668733c6715190143da9a94c0456a98746f59ea0b4d9ab0c6b"

theorem separatedRun_hash : Verdict.contentHash separatedRun = .ok separatedHash := by
  rw [Verdict.contentHash_eq (by decide +kernel)]
  exact congrArg Except.ok (by decide +kernel)

def separatedText (action : String) : String := "run|1" ++ "|" ++ separatedHash ++ "|" ++ action

theorem separatedText_behind {verdict : Value} {action : String}
    (run : runIdOf verdict = .str "run|1")
    (hash : Verdict.contentHash verdict = Verdict.contentHash separatedRun) :
    requestText verdict (.str action) = .ok ↑(separatedText action) := by
  simp only [requestText, hash, separatedRun_hash, Except.map, run, Value.display, separatedText,
    Text.plain_append_plain]

theorem separatedText_digits :
    idDigits (separatedText "APPROVE_AUTOMERGE_DEPLOY") ≠
      idDigits (separatedText "HOLD_FOR_HUMAN") := by
  have digits (s : String) : idDigits s =
      (Digest.hexDigest (s.toList.flatMap String.utf8EncodeChar)).toList.take 16 := by
    rw [idDigits, ← Digest.sha256_ofList, String.ofList_toList]
  rw [digits, digits]
  decide +kernel

theorem finalAction_of_run {verdict threshold : Value} {d : Decision} {clock after : Clock}
    {p : Plan} (clean : Contract.verdictIssues verdict = []) (share : IsThreshold threshold)
    (decided : decide (Verdict.proposedOf verdict) (Verdict.confidenceOf verdict) threshold
      (Verdict.learningModeOf verdict).truthy = .ok d)
    (ran : (ofVerdict verdict threshold).run clock = (.ok p, after)) :
    p.finalAction = d.finalAction := by
  rw [ofVerdict_decided clean share decided] at ran
  split at ran
  · cases ran
  · obtain ⟨_, -, rfl⟩ := map_eq_ok (Prod.mk.inj ran).1
    rfl

/-- The same verdict, with its members turned, under two thresholds: it is approved under one and
held under the other, and the two ids differ. -/
theorem requestId_identifies_held :
    let clock : Clock := ⟨fun _ => "2024-05-01T12:00:00Z", 0⟩
    Contract.verdictIssues separatedRun = [] ∧ Contract.verdictIssues separatedRunTurned = [] ∧
      separatedRun.WellFormed ∧ separatedRunTurned.WellFormed ∧ IsThreshold (.int 0) ∧
      IsThreshold (.int 1) ∧ clock.Proper ∧
      Set.InjOn Digest.sha256 {s | Json.canonicalText separatedRun = s ∨
        Json.canonicalText separatedRunTurned = s} ∧
      ∃ p q after after', (ofVerdict separatedRun (.int 0)).run clock = (.ok p, after) ∧
        (ofVerdict separatedRunTurned (.int 1)).run clock = (.ok q, after') ∧
        Set.InjOn idDigits {text | requestText separatedRun p.finalAction = .ok ↑text ∨
          requestText separatedRunTurned q.finalAction = .ok ↑text} ∧
        p.requestId ≠ q.requestId := by
  intro clock
  have least : IsThreshold (.int 0) := ⟨by decide +kernel, by decide +kernel⟩
  have most : IsThreshold (.int 1) := ⟨by decide +kernel, by decide +kernel⟩
  have shown : Text.isBlankText "2024-05-01T12:00:00Z" = false := by decide
  have proper : clock.Proper := fun _ => shown
  have same := (Json.canonicalText_eq_iff separatedRun_wellFormed
    separatedRunTurned_wellFormed).2 separatedRun_alike
  have digests : Set.InjOn Digest.sha256 {s | Json.canonicalText separatedRun = s ∨
      Json.canonicalText separatedRunTurned = s} := by
    rw [← same]
    rintro s hs t ht -
    exact Text.plain.inj ((or_self_iff.1 hs).symm.trans (or_self_iff.1 ht))
  obtain ⟨returns, identifies⟩ := requestId_identifies separatedRun_clean
    separatedRunTurned_clean separatedRun_wellFormed separatedRunTurned_wellFormed least most proper
    digests
  obtain ⟨p, after, ran⟩ := returns.2 (by decide +kernel)
  obtain ⟨q, after', ran'⟩ :=
    (ofVerdict_returns_iff separatedRunTurned_clean most proper).2 (by decide +kernel)
  have approved : p.finalAction = .str "APPROVE_AUTOMERGE_DEPLOY" :=
    finalAction_of_run separatedRun_clean least
      (d := ⟨_, true, "confidence meets auto-execute threshold"⟩)
      (eq_ok_of_toOption (by decide +kernel)) ran
  have held : q.finalAction = .str "HOLD_FOR_HUMAN" :=
    finalAction_of_run separatedRunTurned_clean most
      (d := ⟨_, false, "confidence below auto-execute threshold"⟩)
      (eq_ok_of_toOption (by decide +kernel)) ran'
  have turned : Verdict.contentHash separatedRunTurned = Verdict.contentHash separatedRun :=
    congrArg (fun t : Text => t.encoded.map Digest.sha256) same.symm
  have apart : Set.InjOn idDigits {text | requestText separatedRun p.finalAction = .ok ↑text ∨
      requestText separatedRunTurned q.finalAction = .ok ↑text} := by
    rw [approved, held, separatedText_behind rfl rfl, separatedText_behind rfl turned]
    simp only [Except.ok.injEq, Text.plain.injEq]
    rintro _ (rfl | rfl) _ (rfl | rfl) digits
    · rfl
    · exact absurd digits separatedText_digits
    · exact absurd digits.symm separatedText_digits
    · rfl
  refine ⟨separatedRun_clean, separatedRunTurned_clean, separatedRun_wellFormed,
    separatedRunTurned_wellFormed, least, most, proper, digests, p, q, after, after', ran, ran',
    apart, fun one => ?_⟩
  have action := ((identifies p q after after' ran ran' apart).1 one).2
  rw [approved, held] at action
  exact absurd action (by decide)

end Plan

end ReleaseGate
