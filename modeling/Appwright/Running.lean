/-!
# Programs with a state

What the machines of this library do alike, whatever their state is. A run ends with a value or with
a failure, and in both cases in a state: what it did before it failed stays done.
-/

namespace Appwright

variable {ε δ σ α : Type}

/-- The state in which a run ends, whether it succeeds or fails. -/
def ending : EStateM.Result ε σ α → σ
  | .ok _ s => s
  | .error _ s => s

def outcome : EStateM.Result ε σ α → Except ε α
  | .ok v _ => .ok v
  | .error e _ => .error e

def caught (run : EStateM ε σ α) : EStateM ε σ (Except ε α) := fun s =>
  let r := run s
  .ok (outcome r) (ending r)

def attempt (wrap : ε → δ) : Except ε α → EStateM δ σ α
  | .ok v => pure v
  | .error e => throw (wrap e)

end Appwright
