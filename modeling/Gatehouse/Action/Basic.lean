import Gatehouse.Cache.Call
import Gatehouse.Metrics
import Gatehouse.Token.Store

/-!
# Actions

What the service does for a request is an action: a sequence of requests to the engine of the cache, to the store of
records, to the clock, for random numbers, and to the metrics, each of which may depend on the answers before it.
Between two requests of one action other actions may take their steps. An action that needs an instant which does not
exist is abandoned.
-/

namespace Gatehouse

/-- What an action may ask for. -/
inductive Request where
  | engine (call : EngineCall)
  | store (call : StoreCall)
  /-- The time on the wall clock. -/
  | clock
  /-- Random numbers, each between zero and a limit. -/
  | draw (limit count : Nat)
  /-- Counts an event. -/
  | record (event : Event)

/-- What a request is answered with. -/
abbrev Request.Answer : Request → Type
  | engine c => Except CacheError c.Reply
  | store c => Except ServiceError c.Reply
  | clock => Instant
  | draw limit count => Fin count → Fin (limit + 1)
  | record _ => Unit

/-- A sequence of requests that ends with a result. -/
inductive Action (α : Type) where
  | done (a : α)
  /-- Ends without a result. -/
  | abandon
  | ask (r : Request) (next : r.Answer → Action α)

namespace Action

variable {α β : Type}

/-- One action after another. -/
def bind : Action α → (α → Action β) → Action β
  | done a, f => f a
  | abandon, _ => abandon
  | ask r next, f => ask r fun x => (next x).bind f

instance : Monad Action where
  pure := done
  bind := bind

/-- The action of one request. -/
def request (r : Request) : Action r.Answer := ask r done

/-- A call of the engine. -/
def engine (c : EngineCall) : Action (Except CacheError c.Reply) := request (.engine c)

/-- A call of the store of records. -/
def store (c : StoreCall) : Action (Except ServiceError c.Reply) := request (.store c)

/-- The time on the wall clock. -/
def clock : Action Instant := request .clock

/-- Random numbers, each between zero and a limit. -/
def draw (limit count : Nat) : Action (Fin count → Fin (limit + 1)) := request (.draw limit count)

/-- Counts an event. -/
def record (e : Event) : Action Unit := request (.record e)

/-- Goes on with the result of a computation, or ends where that was abandoned. -/
def ofOutcome : Outcome α → Action α
  | .returned a => done a
  | .abandoned => abandon

end Action

/-- How requests are answered in a state: a request that is abandoned has no answer. -/
abbrev Handler (σ : Type) := (r : Request) → σ → Outcome r.Answer × σ

namespace Action

variable {σ α : Type}

/-- Makes the next request of an action. An action that has ended stays as it is. -/
def step (answer : Handler σ) (s : σ) : Action α → Action α × σ
  | done a => (done a, s)
  | abandon => (abandon, s)
  | ask r next =>
    match answer r s with
    | (.returned x, s) => (next x, s)
    | (.abandoned, s) => (abandon, s)

/-- Runs an action to its end, with nothing between its requests. -/
def run (answer : Handler σ) : Action α → σ → Outcome α × σ
  | done a, s => (.returned a, s)
  | abandon, s => (.abandoned, s)
  | ask r next, s =>
    match answer r s with
    | (.returned x, s) => (next x).run answer s
    | (.abandoned, s) => (.abandoned, s)

end Action

/-- An action on the cache. -/
abbrev CacheAction := ExceptT CacheError Action

/-- An action of the service. -/
abbrev ServiceAction := ExceptT ServiceError Action

/-- A failure of the cache fails what the service does with it. -/
def CacheAction.lift {α : Type} (x : CacheAction α) : ServiceAction α := x.adapt ServiceError.cache

end Gatehouse
