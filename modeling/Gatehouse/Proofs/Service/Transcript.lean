import Gatehouse.Proofs.Service.Alike

/-!
# What the calls of a run were answered

The transcript of a run is its calls in order, each with what it ended with.
-/

namespace Gatehouse

/-- A call of a run, with the clocks when it was made and what it ended with. -/
structure Answered where
  clocks : Clocks
  call : ServiceCall
  outcome : Outcome (Except ServiceError call.Reply)

namespace Service

variable {s s' : Service} {e : ServiceEvent}

/-- The calls of a run and what they ended with. -/
def transcript (s : Service) : List ServiceEvent → List Answered
  | [] => []
  | .call c :: rest => ⟨s.clocks, c, (s.run c.action.run).1⟩ :: (s.apply (.call c)).transcript rest
  | e :: rest => (s.apply e).transcript rest

theorem transcript_cons (he : ∀ c, e ≠ .call c) (rest : List ServiceEvent) :
    s.transcript (e :: rest) = (s.apply e).transcript rest := by
  cases e with
  | call c => exact absurd rfl (he c)
  | _ => rfl

theorem transcript_append (s : Service) (events more : List ServiceEvent) :
    s.transcript (events ++ more) = s.transcript events ++ (s.after events).transcript more := by
  induction events generalizing s with
  | nil => rfl
  | cons e rest ih =>
    cases e with
    | call c => exact congrArg _ (ih _)
    | _ => exact ih _

/-- Two services that cannot be told apart answer every run alike. -/
theorem Alike.transcript_eq (h : s.Alike .whole s') (events : List ServiceEvent) :
    s'.transcript events = s.transcript events := by
  induction events generalizing s s' with
  | nil => rfl
  | cons e rest ih =>
    cases e with
    | call c =>
      obtain ⟨houtcome, hafter⟩ := h.run (Scope.follows_whole c.action.run)
      unfold transcript
      rw [houtcome, h.clocks_eq]
      exact congrArg _ (ih hafter)
    | _ => exact ih (h.apply nofun)

end Service

end Gatehouse
