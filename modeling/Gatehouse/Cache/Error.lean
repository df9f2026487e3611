import Gatehouse.Json.Encoding
import Gatehouse.Time.Span

/-!
# Failures of the cache

Every cause for which an operation of the cache can fail. A key that is absent is a cause of its own, so that callers
and metrics can tell a miss from a failure.
-/

namespace Gatehouse

/-- Why an operation of the cache failed. -/
inductive CacheError where
  /-- No live entry has the key. -/
  | keyNotFound
  /-- The engine has been closed. -/
  | engineClosed
  /-- The value has no stored form. -/
  | encoding (cause : Json.EncodeError)
  /-- The stored form is not that of a value of the wanted type. -/
  | decoding (cause : Json.DecodeError)
  /-- No answer came within the time allowed for a request. -/
  | timeout (after : Span)
  /-- The server refused a request or answered something else than was asked for. -/
  | server
  /-- The embedded store failed. -/
  | store
  /-- A stored entry is not in the form in which entries are stored. -/
  | corruptEntry (key : String)
deriving DecidableEq

namespace CacheError

/-- Whether the failure is a miss. -/
def isNotFound : CacheError → Bool
  | .keyNotFound => true
  | _ => false

/-- Whether a stored form ended too soon. Scans pass such entries over. -/
def isIncomplete : CacheError → Bool
  | .decoding .truncated => true
  | _ => false

/-- The text of the failure that this one reports, if its wording is fixed here. -/
def source? : CacheError → Option String
  | .encoding e => some e.message
  | _ => none

/-- The text of a failure. The server, the store and the decoder word their own failures. -/
def message? : CacheError → Option String
  | .keyNotFound => some "cache key not found"
  | .engineClosed => some "cache engine is closed"
  | .encoding e => some s!"failed to encode cache value: {e.message}"
  | .decoding _ => none
  | .timeout d => some s!"cache request timed out after {d.text}"
  | .server => none
  | .store => none
  | .corruptEntry key => some s!"Corrupt cache entry: {key}"

end CacheError

end Gatehouse
