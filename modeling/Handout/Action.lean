/-
  Handout.Action — things done to a state that may fail half way. What was done before
  the failure stays done.
-/

import Handout.Failure

namespace Handout

/-- Changes a state and answers a value or a failure. -/
abbrev Action (σ α : Type) := EStateM Failure σ α

/-- The answer and the state after it. -/
def Action.outcome {σ α : Type} (x : Action σ α) (s : σ) : Except Failure α × σ :=
  match x s with
  | .ok a t => (.ok a, t)
  | .error f t => (.error f, t)

/-- Answers what is known already. -/
def answered {m : Type → Type} {α : Type} [Monad m] [MonadExceptOf Failure m] : Except Failure α → m α
  | .ok a => pure a
  | .error f => throw f

end Handout
