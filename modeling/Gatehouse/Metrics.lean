import Gatehouse.Cache.Error
import Gatehouse.Table
import Gatehouse.Token.Kind

/-!
# Metrics

The service counts the operations of its cache by how they ended, the actions that limiters rejected, and the tokens
it revoked, and it shows how many revocations it restored when it started. A series is shown from its first event on.
-/

namespace Gatehouse

/-- The operations of the cache that are counted. -/
inductive Operation where
  | has
  | get
  | put
  | delete
  | take
  | scan
deriving DecidableEq

namespace Operation

/-- Every operation that is counted. -/
def all : List Operation := [.has, .get, .put, .delete, .take, .scan]

/-- The name of an operation. -/
def label : Operation → String
  | has => "has"
  | get => "get"
  | put => "put"
  | delete => "delete"
  | take => "take"
  | scan => "scan"

end Operation

/-- How an operation ended. A key that is absent is told apart from a failure. -/
inductive Ending where
  | ok
  | miss
  | error
deriving DecidableEq

namespace Ending

/-- Every way in which an operation ends. -/
def all : List Ending := [.ok, .miss, .error]

/-- The name of an ending. -/
def label : Ending → String
  | ok => "ok"
  | miss => "miss"
  | error => "error"

/-- How an operation with this result ended. -/
def ofResult {α : Type} : Except CacheError α → Ending
  | .ok _ => .ok
  | .error e => if e.isNotFound then .miss else .error

end Ending

/-- What is counted. -/
inductive Event where
  | operation (operation : Operation) (ending : Ending)
  /-- A limiter of a name space rejected an action. -/
  | rejection (space : String)
  /-- A token of a kind was revoked. -/
  | revocation (kind : TokenKind)
  /-- Revocations were restored. -/
  | loaded (count : Nat)
deriving DecidableEq

/-- The counts so far. -/
structure Metrics where
  operations : Operation → Ending → Nat
  rejections : Table String Nat
  revocations : TokenKind → Nat
  /-- Absent as long as no revocations have been restored. -/
  loaded : Option Nat

/-- One value that is shown, under a name and labels. -/
structure Sample where
  name : String
  labels : List (String × String)
  value : Nat
deriving DecidableEq

/-- The name of a sample with its labels. -/
def Sample.series (s : Sample) : String :=
  s.name ++ "\x7b" ++ String.intercalate "," (s.labels.map fun l => l.1 ++ "=" ++ l.2) ++ "\x7d"

namespace Metrics

/-- No counts. -/
def empty : Metrics := ⟨fun _ _ => 0, Table.empty, fun _ => 0, none⟩

/-- The counts after an event. -/
def record (m : Metrics) : Event → Metrics
  | .operation op ending =>
    { m with operations := fun op' ending' => m.operations op' ending' + if op' = op ∧ ending' = ending then 1 else 0 }
  | .rejection space => { m with rejections := m.rejections.insert space ((m.rejections.get? space).getD 0 + 1) }
  | .revocation kind => { m with revocations := fun kind' => m.revocations kind' + if kind' = kind then 1 else 0 }
  | .loaded count => { m with loaded := some count }

/-- The name of the counter of operations. -/
def operationsName : String := "warden_cache_operations_total"

/-- The name of the counter of rejections. -/
def rejectionsName : String := "warden_rate_limit_rejections_total"

/-- The name of the counter of revoked tokens. -/
def revocationsName : String := "warden_tokens_revoked_total"

/-- The name of the gauge of restored revocations. -/
def loadedName : String := "warden_revocations_loaded"

/-- What the counters say. -/
def counters : List (String × String) :=
  [(operationsName, "Cache operations by operation and outcome"),
    (rejectionsName, "Actions rejected by a rate limiter"), (revocationsName, "Access tokens revoked")]

/-- What the gauges say. -/
def gauges : List (String × String) := [(loadedName, "Revocation markers restored at startup")]

/-- The samples of all series that have had an event. -/
def samples (m : Metrics) : List Sample :=
  let operations := Operation.all.flatMap fun op => Ending.all.map fun ending =>
    ⟨operationsName, [("operation", op.label), ("result", ending.label)], m.operations op ending⟩
  let rejections := m.rejections.entries.map fun e => ⟨rejectionsName, [("namespace", e.1)], e.2⟩
  let revocations := TokenKind.all.map fun k => ⟨revocationsName, [("kind", k.label)], m.revocations k⟩
  (operations ++ rejections ++ revocations).filter (fun s => s.value ≠ 0) ++
    (m.loaded.map fun n => ⟨loadedName, [], n⟩).toList

end Metrics

end Gatehouse
