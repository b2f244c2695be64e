namespace DeviceLab

/-- The minimum time between the starts of two iterations, and when the current one started, in
milliseconds. -/
structure Pacing where
  minLoopTime : Nat
  startedAt : Nat
  deriving Repr, DecidableEq, Inhabited

namespace Pacing

def readyAt (p : Pacing) : Nat :=
  p.startedAt + p.minLoopTime

def remaining (p : Pacing) (now : Nat) : Nat :=
  p.readyAt - now

end Pacing

end DeviceLab
