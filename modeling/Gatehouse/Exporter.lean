import Gatehouse.Metrics
import Gatehouse.Settings.SocketAddress

/-!
# Showing metrics

An exporter shows the metrics at an address. It is installed once; after that it stays where it is.
-/

namespace Gatehouse

/-- An exporter, with the address at which it was installed. -/
structure Exporter where
  address : Option SocketAddress
deriving DecidableEq

namespace Exporter

/-- Installs the exporter, unless it is installed already. -/
def install (e : Exporter) (address : SocketAddress) : Exporter :=
  if e.address.isSome then e else ⟨some address⟩

/-- What the counters say that the exporter knows of. -/
def counters (e : Exporter) : List (String × String) := if e.address.isSome then Metrics.counters else []

/-- What the gauges say that the exporter knows of. -/
def gauges (e : Exporter) : List (String × String) := if e.address.isSome then Metrics.gauges else []

end Exporter

end Gatehouse
