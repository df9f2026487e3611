import Gatehouse.Action.Basic
import Gatehouse.Cache.Engine

/-!
# The state of the service

What actions act on: the clocks, the engine of the cache, the store of records, the counts, a source of random
numbers, and a plan of the calls that are to fail. An action runs one request at a time, so that the steps of several
actions can be put in any order.
-/

namespace Gatehouse

/-- For each method the fate of its coming calls: a failure instead of the call, or none. Calls beyond the plan are
made. -/
structure FaultPlan (μ ε : Type) where
  fates : μ → List (Option ε)

namespace FaultPlan

variable {μ ε : Type} [DecidableEq μ]

/-- The plan under which every call is made. -/
def empty : FaultPlan μ ε := ⟨fun _ => []⟩

/-- Adds a fate after those that a method already has. -/
def add (p : FaultPlan μ ε) (m : μ) (fate : Option ε) : FaultPlan μ ε :=
  ⟨fun m' => p.fates m' ++ if m' = m then [fate] else []⟩

/-- The failure of the next call of a method, if it is to fail. -/
def next (p : FaultPlan μ ε) (m : μ) : Option ε := (p.fates m).head?.join

/-- The plan after a call of a method. -/
def advance (p : FaultPlan μ ε) (m : μ) : FaultPlan μ ε := ⟨fun m' => if m' = m then (p.fates m').tail else p.fates m'⟩

end FaultPlan

/-- The state of the service. -/
structure Service where
  clocks : Clocks
  engine : Engine
  store : TokenStore
  metrics : Metrics
  /-- The random numbers to come. -/
  entropy : Nat → Nat
  engineFaults : FaultPlan Method CacheError
  storeFaults : FaultPlan StoreMethod ServiceError

namespace Service

/-- A service at a time with an engine and a store. -/
def new (clocks : Clocks) (engine : Engine) (store : TokenStore) (entropy : Nat → Nat) : Service :=
  { clocks, engine, store, metrics := Metrics.empty, entropy, engineFaults := .empty, storeFaults := .empty }

/-- A call of the engine, which fails if the plan says so. -/
def callEngine (s : Service) (c : EngineCall) : c.Answer × Service :=
  let planned := { s with engineFaults := s.engineFaults.advance c.method }
  match s.engineFaults.next c.method with
  | some e => (.returned (.error e), planned)
  | none =>
    let (a, engine) := s.engine.perform s.clocks c
    (a, { planned with engine })

/-- A call of the store, which fails if the plan says so. -/
def callStore (s : Service) (c : StoreCall) : Except ServiceError c.Reply × Service :=
  let planned := { s with storeFaults := s.storeFaults.advance c.method }
  match s.storeFaults.next c.method with
  | some e => (.error e, planned)
  | none =>
    let (r, store) := s.store.perform c
    (.ok r, { planned with store })

/-- The answer to a request. -/
def answer (s : Service) : (r : Request) → Outcome r.Answer × Service
  | .engine c => s.callEngine c
  | .store c => let (a, s) := s.callStore c; (.returned a, s)
  | .clock => (.returned s.clocks.instant, s)
  | .draw limit count =>
    (.returned fun i => Fin.ofNat (limit + 1) (s.entropy i), { s with entropy := fun i => s.entropy (count + i) })
  | .record e => (.returned (), { s with metrics := s.metrics.record e })

/-- Moves both clocks forward; after that the engine does what it does by itself. -/
def advance (s : Service) (d : Span) : Service :=
  let clocks : Clocks := ⟨s.clocks.wall + d.nanos, s.clocks.monotonic + d.nanos⟩
  { s with clocks, engine := s.engine.tick clocks }

/-- Moves the wall clock alone, forward or back. -/
def shiftWall (s : Service) (nanos : Int) : Service :=
  { s with clocks := { s.clocks with wall := s.clocks.wall + nanos } }

/-- Runs an action to its end. -/
def run {α : Type} (s : Service) (x : Action α) : Outcome α × Service := x.run (fun r s => s.answer r) s

/-- Makes the next request of an action. -/
def step {α : Type} (s : Service) (x : Action α) : Action α × Service := x.step (fun r s => s.answer r) s

end Service

end Gatehouse
