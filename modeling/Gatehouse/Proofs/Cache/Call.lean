import Gatehouse.Cache.Typed
import Gatehouse.Proofs.Action

/-!
# Runs of the cache

Every operation of the cache makes at most one call of its engine and reads the answer. A run is a list of operations,
moves of the clocks, and things that happen to an engine besides its calls; the engine is any state that answers calls.
-/

namespace Gatehouse

open Json

/-- What callers ask of the cache. -/
inductive CacheCall : Type 1 where
  | has (key : String)
  | get (α : Type) [FromJson α] (key : String)
  | put (α : Type) [Encode α] (key : String) (value : α) (expiration : Option Span)
  | delete (key : String)
  | take (key : String)
  | remaining (key : String)
  | keys (stem : String)
  | values (α : Type) [FromJson α] (stem : String)
  | items (α : Type) [FromJson α] (stem : String)
  | flush
  | close

namespace CacheCall

/-- What a call ends with when it succeeds. -/
abbrev Reply : CacheCall → Type
  | has _ => Bool
  | get α _ => α
  | put _ _ _ _ => Unit
  | delete _ => Unit
  | take _ => Bool
  | remaining _ => Option Span
  | keys _ => List String
  | values α _ => List α
  | items α _ => Table String α
  | flush => Unit
  | close => Unit

/-- What the cache does for a call. -/
def action : (c : CacheCall) → CacheAction c.Reply
  | has key => Cache.has key
  | get _ key => Cache.get key
  | put _ key value expiration => Cache.put key value expiration
  | delete key => Cache.delete key
  | take key => Cache.take key
  | remaining key => Cache.remaining key
  | keys stem => Cache.keys stem
  | values _ stem => Cache.values stem
  | items _ stem => Cache.items stem
  | flush => Cache.flush
  | close => Cache.close

/-- The call of the engine that a call makes, and how its result is read. A value without a stored form fails before
any call. -/
def plan : (c : CacheCall) →
    Except CacheError ((e : EngineCall) × (Except CacheError e.Reply → Except CacheError c.Reply))
  | has key => .ok ⟨.has key, id⟩
  | get _ key => .ok ⟨.fetch key, fun r => r.bind Cache.read⟩
  | put _ key value expiration =>
    match Encode.encode value with
    | .ok b => .ok ⟨.put key b (Cache.lifetime expiration), id⟩
    | .error e => .error (.encoding e)
  | delete key => .ok ⟨.delete key, id⟩
  | take key => .ok ⟨.take key, id⟩
  | remaining key => .ok ⟨.remaining key, id⟩
  | keys stem => .ok ⟨.keys stem, id⟩
  | values _ stem => .ok ⟨.entries stem, fun r => (r.bind Cache.readEntries).map fun l => l.map Prod.snd⟩
  | items _ stem => .ok ⟨.entries stem, fun r => (r.bind Cache.readEntries).map Table.ofList⟩
  | flush => .ok ⟨.flush, id⟩
  | close => .ok ⟨.close, id⟩

end CacheCall

/-! ## Engines and their runs -/

/-- What happens to an engine besides its calls. -/
inductive Maintenance where
  /-- The expired entries of an engine in memory are removed. -/
  | prune
  /-- An engine in memory does what it does by itself at its times. -/
  | tick
  /-- The open store of an embedded engine that is kept on disk is closed and opened again. -/
  | reopen

/-- How an engine answers calls, and what becomes of it otherwise. -/
structure Backend (σ : Type) where
  perform : Clocks → σ → (c : EngineCall) → c.Answer × σ
  maintain : Clocks → Maintenance → σ → σ

/-- Both clocks, a span later. -/
def Clocks.advance (clocks : Clocks) (d : Span) : Clocks := ⟨clocks.wall + d.nanos, clocks.monotonic + d.nanos⟩

/-- One step of a run. -/
inductive CacheStep : Type 1 where
  | call (c : CacheCall)
  /-- Both clocks move forward. -/
  | advance (d : Span)
  | maintain (w : Maintenance)

/-- The clocks after a step. -/
def CacheStep.clocks (clocks : Clocks) : CacheStep → Clocks
  | advance d => clocks.advance d
  | _ => clocks

/-- The clocks after a run. -/
def Clocks.after (clocks : Clocks) (steps : List CacheStep) : Clocks := steps.foldl CacheStep.clocks clocks

namespace Backend

variable {σ α β : Type} (B : Backend σ) (clocks : Clocks) (s : σ)

/-- Answers what the cache asks for: calls go to the engine, and counts are kept elsewhere. -/
def handler : Handler σ
  | .engine c, s => B.perform clocks s c
  | .record _, s => (.returned (), s)
  | .store _, s => (.abandoned, s)
  | .clock, s => (.abandoned, s)
  | .draw _ _, s => (.abandoned, s)

/-- Runs a call of the cache to its end. -/
def run (c : CacheCall) : Outcome (Except CacheError c.Reply) × σ := c.action.run.run (B.handler clocks) s

/-- The engine after a step. -/
def apply : CacheStep → σ
  | .call c => (B.run clocks s c).2
  | .advance _ => s
  | .maintain w => B.maintain clocks w s

/-- The engine after a run. -/
def after (clocks : Clocks) (s : σ) : List CacheStep → σ
  | [] => s
  | e :: rest => after (e.clocks clocks) (B.apply clocks s e) rest

/-! ## One call of the engine -/

theorem run_uncounted (c : EngineCall) :
    (Cache.uncounted c).run.run (B.handler clocks) s = B.perform clocks s c := by
  change (Action.ask (.engine c) Action.done).run (B.handler clocks) s = B.perform clocks s c
  simp only [Action.run, handler]
  split <;> (rename_i heq; exact heq.symm)

theorem run_counted (op : Operation) (c : EngineCall) :
    (Cache.counted op c).run.run (B.handler clocks) s = B.perform clocks s c := by
  change (Action.ask (.engine c) fun r => Action.ask (.record (.operation op (.ofResult r))) fun _ =>
    Action.done r).run (B.handler clocks) s = B.perform clocks s c
  simp only [Action.run, handler]
  split <;> (rename_i heq; exact heq.symm)

/-- Reading a result makes no further call. -/
theorem run_read {x : CacheAction α} {f : α → Except CacheError β} :
    (x >>= fun a => ExceptT.mk (pure (f a))).run.run (B.handler clocks) s =
      ((x.run.run (B.handler clocks) s).1.map fun r => r.bind f, (x.run.run (B.handler clocks) s).2) := by
  rw [ExceptT.run_bind, Action.run_bind]
  split
  · rename_i r s' heq
    rw [heq]
    cases r <;> rfl
  · rename_i s' heq
    rw [heq]
    rfl

theorem run_entries [FromJson α] {stem : String} {f : List (String × α) → β} :
    (do return f (← Cache.entries stem) : CacheAction β).run.run (B.handler clocks) s =
      ((B.perform clocks s (.entries stem)).1.map fun r => (r.bind Cache.readEntries).map f,
        (B.perform clocks s (.entries stem)).2) := by
  have hread := B.run_read clocks s (x := Cache.counted .scan (.entries stem))
    (f := fun l => Cache.readEntries (α := α) l)
  refine (B.run_read clocks s (x := Cache.entries stem) (f := fun l => .ok (f l))).trans ?_
  unfold Cache.entries
  rw [hread, run_counted]
  cases (B.perform clocks s (.entries stem)).1 with
  | abandoned => rfl
  | returned r => cases r <;> rfl

/-- A call of the cache is the one call of the engine that is planned for it. -/
theorem run_eq (c : CacheCall) :
    B.run clocks s c =
      match c.plan with
      | .error e => (.returned (.error e), s)
      | .ok ⟨e, read⟩ => ((B.perform clocks s e).1.map read, (B.perform clocks s e).2) := by
  have hid {α : Type} (x : Outcome α × σ) : x = (x.1.map id, x.2) := by
    obtain ⟨o, s⟩ := x
    cases o <;> rfl
  unfold run
  cases c with
  | has key => exact (B.run_counted clocks s .has (.has key)).trans (hid _)
  | get α key =>
    refine (B.run_read clocks s (x := Cache.counted .get (.fetch key)) (f := Cache.read)).trans ?_
    rw [run_counted]
    rfl
  | put α key value expiration =>
    simp only [CacheCall.action, CacheCall.plan, Cache.put]
    cases Encode.encode value with
    | ok b => exact (B.run_counted clocks s .put (.put key b (Cache.lifetime expiration))).trans (hid _)
    | error e => rfl
  | delete key => exact (B.run_counted clocks s .delete (.delete key)).trans (hid _)
  | take key => exact (B.run_counted clocks s .take (.take key)).trans (hid _)
  | remaining key => exact (B.run_uncounted clocks s (.remaining key)).trans (hid _)
  | keys stem => exact (B.run_counted clocks s .scan (.keys stem)).trans (hid _)
  | values α stem => exact B.run_entries clocks s
  | items α stem => exact B.run_entries clocks s
  | flush => exact (B.run_uncounted clocks s .flush).trans (hid _)
  | close => exact (B.run_uncounted clocks s .close).trans (hid _)

end Backend

end Gatehouse
