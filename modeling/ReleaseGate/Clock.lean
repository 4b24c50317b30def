import ReleaseGate.Text.Basic

/-!
A clock that is asked for the time: what it answers depends only on how often it has been asked.
-/

namespace ReleaseGate

structure Clock where
  reading : Nat → Text
  asked : Nat

namespace Clock

def tick (c : Clock) : Text × Clock := (c.reading c.asked, { c with asked := c.asked + 1 })

end Clock

def now {m : Type → Type} [Monad m] [MonadStateOf Clock m] : m Text := do
  let c ← getThe Clock
  set c.tick.2
  return c.tick.1

end ReleaseGate
