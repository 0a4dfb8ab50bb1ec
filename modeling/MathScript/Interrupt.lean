/-!
# Interrupts

Work that may be called off asks at certain points whether to go on.  An
interrupt answers by the number of points passed: it says, for each of them,
whether cancellation had been requested by then and whether the deadline had
passed.  A cancellation is reported before a deadline.
-/

namespace MathScript

/-- Why work was called off. -/
inductive Interrupted where
  | cancelled | deadlineExceeded
deriving DecidableEq, Repr, Inhabited

def Interrupted.message : Interrupted → String
  | .cancelled => "operation cancelled"
  | .deadlineExceeded => "deadline exceeded"

/-- What holds at the `n`-th point at which work asks whether to go on. -/
structure Interrupt where
  cancelled : Nat → Bool
  expired : Nat → Bool

namespace Interrupt

/-- Never calls anything off. -/
def never : Interrupt := ⟨fun _ => false, fun _ => false⟩

/-- Whether to stop at the `n`-th point, and why. -/
def check (i : Interrupt) (n : Nat) : Option Interrupted :=
  if i.cancelled n then some .cancelled
  else if i.expired n then some .deadlineExceeded
  else none

end Interrupt
end MathScript
