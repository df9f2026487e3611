import Gatehouse.Action.Service
import Gatehouse.Revocation
import Gatehouse.Settings.Environment

/-!
# Starting and stopping

The service starts by opening the engine of its cache and restoring the revocations. It does not start if either
fails, for then it would not know which tokens are revoked. It stops by closing the cache.
-/

namespace Gatehouse

/-- Why the service did not start or stop. -/
inductive StartupError where
  | settings (cause : SettingsError)
  /-- The engine of the cache was not opened. -/
  | opening (cause : CacheError)
  /-- The revocations were not restored. -/
  | loading (cause : ServiceError)
  /-- The cache was not closed. -/
  | closing (cause : CacheError)
deriving DecidableEq

namespace StartupError

/-- What the service was doing. -/
def context? : StartupError → Option String
  | settings _ => none
  | opening _ => some "Failed to open cache engine"
  | loading _ => some "Failed to load revocation list"
  | closing _ => some "Failed to close cache"

end StartupError

/-- What engines find when they are opened. -/
structure Surroundings where
  clocks : Clocks
  /-- The content of the embedded store. -/
  disk : Table Bytes Bytes
  link : Link
  /-- The percentage that the waits for the server take of their bounds. -/
  waitPercent : Nat

/-- Opens the engine that the settings choose. -/
def Engine.ofSettings (around : Surroundings) (settings : EngineSettings) (pruneInterval : Option Span) :
    Except CacheError Engine :=
  match settings with
  | .memory => .ok (.memory (Memory.start around.clocks.monotonic pruneInterval))
  | .embedded e => .ok (.embedded (Embedded.openStore around.disk e.temporary))
  | .server e => (Remote.connect around.link around.clocks.unixMillis around.waitPercent e).map .server

namespace Service

/-- Starts over an engine that is open: restores the revocations. -/
def start (s : Service) : Outcome (Except StartupError Unit) × Service :=
  let (r, s) := s.run Revocation.load.run
  (r.map fun r => (r.map fun _ => ()).mapError .loading, s)

/-- Stops: closes the cache. -/
def stop (s : Service) : Outcome (Except StartupError Unit) × Service :=
  let (r, s) := s.run Cache.close.run
  (r.map fun r => r.mapError .closing, s)

/-- Stops and starts again over the store of the embedded engine. If that fails the engine stays closed. The other
engines have no store to open again. -/
def restart (s : Service) : Outcome (Except StartupError Unit) × Service :=
  let (_, s) := s.stop
  match s.engine with
  | .embedded e =>
    match e.reopen with
    | .error e => (.returned (.error (.opening e)), s)
    | .ok e =>
      match Service.start { s with engine := .embedded e } with
      | (.returned (.ok _), s) => (.returned (.ok ()), s)
      | (r, s) => (r, { s with engine := s.engine.release })
  | _ => (.returned (.error (.opening .engineClosed)), s)

end Service

end Gatehouse
