import Gatehouse.Cache.Server.Client
import Gatehouse.Cache.Server.Keyspace
import Gatehouse.Settings.Basic

/-!
# Connections to a server

A connection is opened by saying who connects and by choosing a key space. An attempt that fails is followed by
further ones after waits that double; each wait is a random part of its bound. Opening has to end within the time
allowed for a request.
-/

namespace Gatehouse

/-- Whether anything listens at the address of the server. -/
inductive Link where
  | refused
  | up (server : Keyspace)

/-- The engine of a server: a client, its connection, and the server itself. -/
structure Remote where
  client : Client
  isOpen : Bool
  server : Keyspace

namespace Remote

/-- The bounds of the waits before further attempts, in milliseconds. -/
def waits : List Nat := [200, 400, 800, 1600, 3200, 6400]

/-- The time for which all attempts go on, if each wait takes a percentage of its bound. -/
def patience (percent : Nat) : Span := Span.ofMillis ((waits.map fun w => w * percent / 100).foldl (· + ·) 0)

/-- The failure to open a connection: the time is over, or all attempts are. -/
def giveUp (timeout : Span) (percent : Nat) : CacheError :=
  if timeout.nanos ≤ (patience percent).nanos then .timeout timeout else .server

/-- The commands that open a connection. -/
def greeting (settings : ServerSettings) : List Command :=
  (settings.password.map fun p => Command.auth settings.user p).toList ++
    (if settings.space = 0 then [] else [.select settings.space])

/-- Opens a connection. -/
def connect (link : Link) (nowMillis percent : Nat) (settings : ServerSettings) : Except CacheError Remote :=
  let client := Client.new settings.timeout settings.pageSize
  match link with
  | .refused => .error (giveUp settings.timeout percent)
  | .up server =>
    let (responses, server) := Client.send (Keyspace.answer nowMillis) (greeting settings) server
    match client.replies responses with
    | .ok _ => .ok ⟨client, true, server⟩
    | .error _ => .error (giveUp settings.timeout percent)

/-- A call of the engine. Once it is closed every call fails. -/
def perform (nowMillis : Nat) (r : Remote) (c : EngineCall) : c.Answer × Remote :=
  if r.isOpen then
    let (a, server) := r.client.perform (Keyspace.answer nowMillis) r.server.scanBound c r.server
    (a, { r with server, isOpen := c.method ≠ .close })
  else (.returned (.error .engineClosed), r)

end Remote

end Gatehouse
