import Gatehouse.Proofs.Cache.Memory
import Gatehouse.Proofs.Server.Documented

/-!
# Engines that are closed

A closed engine refuses every call and stays as it is, whatever happens to it.
-/

namespace Gatehouse

namespace Backend

variable {σ : Type}

/-- Every call of the engine is refused and changes nothing, after any run. -/
def Shut (B : Backend σ) (s : σ) : Prop :=
  ∀ (clocks later : Clocks) (steps : List CacheStep) (c : EngineCall),
    B.perform later (B.after clocks s steps) c = (.returned (.error .engineClosed), B.after clocks s steps)

/-- States in which calls are refused stay such states, if nothing but calls takes an engine out of them. -/
theorem shut_of {B : Backend σ} {C : σ → Prop}
    (hperform : ∀ clocks s c, C s → B.perform clocks s c = (.returned (.error .engineClosed), s))
    (hmaintain : ∀ clocks w s, C s → C (B.maintain clocks w s)) {s : σ} (hs : C s) : B.Shut s := by
  intro clocks later steps c
  refine hperform later _ c ?_
  induction steps generalizing clocks s with
  | nil => exact hs
  | cons step rest ih =>
    refine ih ?_ (step.clocks clocks)
    cases step with
    | call call =>
      change C (B.run clocks s call).2
      rw [B.run_eq clocks s call]
      cases call.plan with
      | error e => exact hs
      | ok planned =>
        change C (B.perform clocks s planned.1).2
        rw [hperform clocks s _ hs]
        exact hs
    | advance d => exact hs
    | maintain w => exact hmaintain clocks w s hs

end Backend

namespace Engine

variable {e : Engine}

/-- Whether an engine is open. -/
def isOpen : Engine → Bool
  | memory m => !m.closed
  | embedded d => d.isOpen
  | server r => r.isOpen

/-- A closed engine refuses every call. -/
theorem perform_of_closed (h : e.isOpen = false) (clocks : Clocks) (c : EngineCall) :
    e.perform clocks c = (.returned (.error .engineClosed), e) := by
  cases e with
  | memory m =>
    have hclosed : m.closed = true := by simpa [isOpen] using h
    simp only [perform, Memory.perform, hclosed, if_true]
  | embedded d =>
    have hclosed : d.isOpen = false := h
    simp only [perform, Embedded.perform, hclosed, Bool.false_eq_true, if_false]
  | server r =>
    have hclosed : r.isOpen = false := h
    simp only [perform, Remote.perform, hclosed, Bool.false_eq_true, if_false]

/-- An engine that has answered a close is closed. -/
theorem isOpen_close (clocks : Clocks) (e : Engine) : (e.perform clocks .close).2.isOpen = false := by
  cases hopen : e.isOpen with
  | false =>
    rw [perform_of_closed hopen]
    exact hopen
  | true =>
    cases e with
    | memory m =>
      have hclosed : m.closed = false := by simpa [isOpen] using hopen
      simp only [perform, Memory.perform, hclosed, Bool.false_eq_true, if_false]
      rfl
    | embedded d =>
      have hopen : d.isOpen = true := hopen
      simp only [perform, Embedded.perform, hopen, if_true]
      rfl
    | server r =>
      have hopen : r.isOpen = true := hopen
      simp only [perform, Remote.perform, hopen, if_true]
      rfl

theorem isOpen_tick (clocks : Clocks) (e : Engine) : (e.tick clocks).isOpen = e.isOpen := by
  cases e with
  | memory m => exact congrArg not (m.closed_tick clocks.monotonic)
  | _ => rfl

theorem isOpen_prune (clocks : Clocks) (e : Engine) : (e.prune clocks).isOpen = e.isOpen := by
  cases e <;> rfl

/-- Closing an engine is final. -/
theorem shut_of_close (clocks : Clocks) (e : Engine) : Backend.engine.Shut (e.perform clocks .close).2 := by
  refine Backend.shut_of (C := fun e => e.isOpen = false) (fun clocks e c h => perform_of_closed h clocks c) ?_
    (isOpen_close clocks e)
  intro clocks w e h
  cases w with
  | prune => exact (isOpen_prune clocks e).trans h
  | tick => exact (isOpen_tick clocks e).trans h
  | reopen =>
    cases e with
    | embedded d =>
      -- A store that is closed is not opened again.
      have hclosed : d.isOpen = false := h
      change (d.restart clocks.unixMillis).isOpen = false
      unfold Embedded.restart
      rw [hclosed]
      exact hclosed
    | _ => exact h

end Engine

/-- Closing a connection is final, whatever server is at its far end. -/
theorem Server.shut_of_close {σ : Type} (S : Server σ) (clocks : Clocks) (r : Session σ) :
    S.backend.Shut (S.backend.perform clocks r .close).2 := by
  have hperform (clocks : Clocks) (r : Session σ) (c : EngineCall) (h : r.isOpen = false) :
      S.backend.perform clocks r c = (.returned (.error .engineClosed), r) := by
    simp only [Server.backend, h, Bool.false_eq_true, if_false]
  refine Backend.shut_of (C := fun r => r.isOpen = false) hperform (fun _ _ _ h => h) ?_
  cases hopen : r.isOpen with
  | false =>
    rw [hperform clocks r .close hopen]
    exact hopen
  | true =>
    simp only [Server.backend, hopen, if_true]
    rfl

end Gatehouse
