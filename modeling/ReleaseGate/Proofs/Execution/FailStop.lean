import ReleaseGate.Proofs.Execution.Rejection

/-!
The adapters of an execution, run in order up to the first that fails. Whatever they answer, there
is one valid result for each adapter that had its turn, and the plan ends failed exactly where the
last of them failed; all that can still go wrong then is that the record is not written.
-/

namespace ReleaseGate.Execution

def Broken (results : List AdapterResult) : Prop := ∃ r ∈ results.getLast?, r.status = .failed

/-- Results of adapters that had their turns in order, until one failed or all had theirs. -/
structure FailStop (action : Value) (request : Request) (adapters : List Adapter)
    (results : List AdapterResult) : Prop where
  settled : List.Forall₂ (fun a r => ∃ c : Clock, c.Proper ∧ (a.run action request c).1 = r)
    (adapters.take results.length) results
  unfailed : ∀ r ∈ results.dropLast, r.status ≠ .failed
  stopped : results.length = adapters.length ∨ Broken results

theorem broken_cons {r : AdapterResult} {results : List AdapterResult} (some : results ≠ []) :
    Broken (r :: results) ↔ Broken results := by
  obtain ⟨s, rest, rfl⟩ := List.exists_cons_of_ne_nil some
  rw [Broken, Broken, List.getLast?_cons_cons]

namespace FailStop

variable {action : Value} {request : Request} {a : Adapter} {rest : List Adapter} {c : Clock}
  {results : List AdapterResult}

theorem nil : FailStop action request [] [] := ⟨.nil, List.forall_mem_nil _, Or.inl rfl⟩

theorem failed (proper : c.Proper) (fails : (a.run action request c).1.status = .failed) :
    FailStop action request (a :: rest) [(a.run action request c).1] :=
  ⟨.cons ⟨c, proper, rfl⟩ .nil, List.forall_mem_nil _, Or.inr ⟨_, rfl, fails⟩⟩

/-- A result that is no failure lets the next adapter run. -/
theorem cons (proper : c.Proper) (goes : (a.run action request c).1.status ≠ .failed)
    (h : FailStop action request rest results) :
    FailStop action request (a :: rest) ((a.run action request c).1 :: results) := by
  refine ⟨.cons ⟨c, proper, rfl⟩ h.settled, ?_, ?_⟩
  · cases results with
    | nil => exact List.forall_mem_nil _
    | cons r later => exact List.forall_mem_cons.2 ⟨goes, h.unfailed⟩
  · obtain all | broken := h.stopped
    · exact Or.inl (congrArg (· + 1) all)
    · refine Or.inr ((broken_cons ?_).2 broken)
      rintro rfl
      obtain ⟨r, none, -⟩ := broken
      cases none

end FailStop

section

variable {settings : Settings} {options : Options} {verdict : Value} {plan : Plan} {log : FilePath}
  {hash : String} {w u : World}

theorem logPath_clock (settings : Settings) (options : Options) (w : World) :
    ((logPath settings options).run w).2.clock = w.clock := by
  cases h : options.log with
  | some path => rw [logPath_open h]
  | none =>
      cases target : logTarget settings options with
      | str s =>
          rw [logPath_opened h target]
          cases Audit.openLog w.files (.ofText s) <;> rfl
      | null | bool _ | int _ | float _ | list _ | object _ =>
          rw [logTarget] at target
          rw [logPath, h]
          simp only [target]
          rfl

/-- An execution that comes to its adapters: it is accepted, its log is open, its verdict has a
digest, nothing withholds its plan, which is approved, and its request id was free. -/
structure Reaches (settings : Settings) (options : Options) (verdict : Value) (plan : Plan)
    (log : FilePath) (hash : String) (w u : World) : Prop where
  accepted : accept verdict plan = .ok ()
  hashed : Verdict.contentHash verdict = .ok hash
  claimed : ∃ v, (logPath settings options).run w = (.ok log, v) ∧
    (claim settings plan.requestId).run v = (.ok true, u)
  free : isWithheld plan options = false
  approved : plan.status = .approved

/-- An execution that reaches its adapters is carried out from there, with nothing asked before. -/
theorem Reaches.run (h : Reaches settings options verdict plan log hash w u)
    (adapters : List Adapter) :
    (execute settings options verdict plan adapters).run w =
        (carryOut log hash options verdict plan adapters).run u ∧
      u.clock = w.clock ∧ u.invoked = w.invoked := by
  obtain ⟨v, opened, claims⟩ := h.claimed
  have before := opened_quiet opened
  have clock := logPath_clock settings options w
  have kept := claim_claims settings plan.requestId v
  rw [opened] at clock
  rw [claims] at kept
  refine ⟨?_, kept.clock.trans clock, kept.invoked.trans before.2⟩
  rw [execute_opened h.accepted opened h.hashed, if_neg (by simp [h.free]), run_bind_ok claims]
  rfl

end

end ReleaseGate.Execution
