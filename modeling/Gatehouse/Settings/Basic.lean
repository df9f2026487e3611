import Gatehouse.Settings.SocketAddress
import Gatehouse.Time.Span

/-!
# Settings

What the service is started with: the engine of the cache, how one-time codes are made, and where metrics are shown.
-/

namespace Gatehouse

/-- How the server of a cache is reached. -/
structure ServerSettings where
  host : String := "127.0.0.1"
  port : Nat := 6379
  user : Option String := none
  password : Option String := none
  /-- The number of the key space. -/
  space : Int := 0
  /-- The time allowed for a request. -/
  timeout : Span := Span.ofMillis 2000
  /-- The number of keys to ask for in a page of a scan. -/
  pageSize : Nat := 100
deriving DecidableEq

/-- Where the embedded store is kept. -/
structure EmbeddedSettings where
  path : String := "./data/cache"
  /-- Whether the store is lost when it is closed. -/
  temporary : Bool := false
  quiet : Bool := false
deriving DecidableEq

/-- Which engine the cache has. -/
inductive EngineSettings where
  | memory
  | embedded (settings : EmbeddedSettings)
  | server (settings : ServerSettings)
deriving DecidableEq

/-- How one-time codes are made and sent. -/
structure CodeSettings where
  /-- Digits of a code. -/
  length : Nat := 6
  /-- How long a code can be used. -/
  lifetime : Span := Span.ofSeconds 300
  /-- How many codes may be sent to one destination within the window. -/
  sendLimit : Nat := 3
  sendWindow : Span := Span.ofSeconds 600
deriving DecidableEq

/-- The settings of the service. -/
structure Settings where
  engine : EngineSettings := .memory
  /-- The time between two sweeps of the engine in memory. -/
  pruneInterval : Option Span := some (Span.ofSeconds 60)
  codes : CodeSettings := {}
  /-- Metrics are not shown without an address. -/
  metricsAddress : Option SocketAddress := none
  /-- Whether log lines are JSON. -/
  jsonLogs : Bool := false
deriving DecidableEq

end Gatehouse
