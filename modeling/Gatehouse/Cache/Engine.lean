import Gatehouse.Cache.Embedded
import Gatehouse.Cache.Memory
import Gatehouse.Cache.Server.Connection

/-!
# Engines

The cache stores its entries in one of three engines. All of them answer the same calls.
-/

namespace Gatehouse

/-- The engine of a cache. -/
inductive Engine where
  | memory (m : Memory)
  | embedded (s : Embedded)
  | server (r : Remote)

namespace Engine

/-- The name of an engine. -/
def name : Engine → String
  | memory _ => "memory"
  | embedded _ => "embedded"
  | server _ => "redis"

/-- A call of an engine. -/
def perform (clocks : Clocks) (e : Engine) (c : EngineCall) : c.Answer × Engine :=
  match e with
  | memory m => let (a, m) := m.perform clocks.monotonic c; (a, memory m)
  | embedded s => let (r, s) := s.perform clocks.unixMillis c; (.returned r, embedded s)
  | server r => let (a, r) := r.perform clocks.unixMillis c; (a, server r)

/-- What an engine does by itself once the clocks have moved. -/
def tick (clocks : Clocks) : Engine → Engine
  | memory m => memory (m.tick clocks.monotonic)
  | e => e

/-- Lets go of an engine that is not used any more. -/
def release : Engine → Engine
  | embedded s => embedded s.release
  | e => e

end Engine

end Gatehouse
