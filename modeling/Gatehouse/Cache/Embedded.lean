import Gatehouse.Cache.Stored
import Gatehouse.Text.Lossy

/-!
# The embedded engine

A durable store ordered by the octets of its keys, with deadlines on the wall clock. A point read that meets an
expired entry removes it, but only as long as the stored octets are the ones it read. Scans leave expired entries in
place. A store that is kept in memory is lost when it is closed.
-/

namespace Gatehouse

/-- The embedded engine and its store. -/
structure Embedded where
  /-- The stored octets by the octets of the key. -/
  disk : Table Bytes Bytes
  isOpen : Bool
  /-- Whether the store is lost when it is closed. -/
  temporary : Bool

namespace Embedded

/-- Opens a store with a given content. -/
def openStore (disk : Table Bytes Bytes) (temporary : Bool) : Embedded := { disk, isOpen := true, temporary }

/-! ## Steps of a point read

A point read reads the octets of a key, then the clock, and then may remove the octets that it read. Each of these is
one step of the store, and others may come between them. -/

/-- Removes a key if its stored octets are still the given ones. -/
def compareAndRemove (disk : Table Bytes Bytes) (key : Bytes) (raw : Bytes) : Table Bytes Bytes :=
  if disk.get? key = some raw then disk.erase key else disk

/-- What the octets of a key mean at a time: corrupt, expired, or live. -/
inductive Reading where
  | corrupt
  | expired
  | live (e : Stored)

/-- Reads stored octets at a time. -/
def classify (raw : Bytes) (nowMillis : Nat) : Reading :=
  match Stored.ofBytes? raw with
  | none => .corrupt
  | some e => if e.isExpired nowMillis then .expired else .live e

/-- A point read with nothing between its steps: the live entry of a key, and the store afterwards. -/
def read (disk : Table Bytes Bytes) (nowMillis : Nat) (key : String) :
    Except CacheError (Option Stored) × Table Bytes Bytes :=
  match disk.get? (Bytes.ofText key) with
  | none => (.ok none, disk)
  | some raw =>
    match classify raw nowMillis with
    | .corrupt => (.error (.corruptEntry key), disk)
    | .expired => (.ok none, compareAndRemove disk (Bytes.ofText key) raw)
    | .live e => (.ok (some e), disk)

/-! ## Scans -/

/-- Reads one entry of a scan; none if it has expired. -/
def scanEntry (nowMillis : Nat) (key raw : Bytes) : Except CacheError (Option (String × Stored)) :=
  match Bytes.text? key with
  | none => .error (.corruptEntry (Bytes.lossyText key))
  | some k => do
    let e ← Stored.parse k raw
    return if e.isExpired nowMillis then none else some (k, e)

/-- The live entries whose keys start with a text, in the order of the store. The first entry that cannot be read
fails the scan. -/
def scan (disk : Table Bytes Bytes) (nowMillis : Nat) (stem : String) : Except CacheError (List (String × Stored)) := do
  let under := disk.entries.filter fun e => (Bytes.ofText stem).isPrefixOf e.1
  return (← under.mapM fun e => scanEntry nowMillis e.1 e.2).filterMap id

/-! ## Calls -/

/-- A call of an open engine. -/
def respond (now : Nat) (s : Embedded) : (c : EngineCall) → Except CacheError c.Reply × Embedded
  | .has key =>
    let (r, disk) := read s.disk now key
    (r.map Option.isSome, { s with disk })
  | .fetch key =>
    let (r, disk) := read s.disk now key
    (r.bind fun e => match e with
      | some e => .ok e.value
      | none => .error .keyNotFound, { s with disk })
  | .put key value lifetime =>
    (.ok (), { s with disk := s.disk.insert (Bytes.ofText key) (Stored.pack now value lifetime) })
  | .delete key => (.ok (), { s with disk := s.disk.erase (Bytes.ofText key) })
  | .take key =>
    match s.disk.get? (Bytes.ofText key) with
    | none => (.ok false, s)
    | some raw =>
      ((Stored.parse key raw).map fun e => !e.isExpired now, { s with disk := s.disk.erase (Bytes.ofText key) })
  | .keys stem => ((scan s.disk now stem).map fun l => l.map Prod.fst, s)
  | .entries stem => ((scan s.disk now stem).map fun l => l.map fun e => (e.1, e.2.value), s)
  | .remaining key =>
    let (r, disk) := read s.disk now key
    (r.bind fun e => match e with
      | some e => .ok (e.remaining now)
      | none => .error .keyNotFound, { s with disk })
  | .flush => (.ok (), { s with disk := Table.empty })
  | .close => (.ok (), { s with isOpen := false, disk := if s.temporary then Table.empty else s.disk })

/-- A call of the engine. Once it is closed every call fails. -/
def perform (nowMillis : Nat) (s : Embedded) (c : EngineCall) : Except CacheError c.Reply × Embedded :=
  if s.isOpen then s.respond nowMillis c else (.error .engineClosed, s)

/-- Opens the store of an engine again. One store cannot be open twice. -/
def reopen (s : Embedded) : Except CacheError Embedded :=
  if s.isOpen then .error .store else .ok (openStore s.disk s.temporary)

/-- Lets the engine go, as far as anyone can see by closing it. -/
def release (s : Embedded) : Embedded := (s.perform 0 .close).2

end Embedded

end Gatehouse
