/-!
# Outcomes

A computation either ends with a result or is abandoned half way, when an instant that it needs does not exist. What
it did before stays done.
-/

namespace Gatehouse

/-- How a computation ended. -/
inductive Outcome (α : Type) where
  /-- It ended with a result. -/
  | returned (a : α)
  /-- It was abandoned. -/
  | abandoned
deriving DecidableEq

namespace Outcome

variable {α β : Type}

/-- Applies a function to the result, if there is one. -/
def map (f : α → β) : Outcome α → Outcome β
  | returned a => returned (f a)
  | abandoned => abandoned

end Outcome

end Gatehouse
