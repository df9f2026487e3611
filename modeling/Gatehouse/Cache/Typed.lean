import Gatehouse.Action.Basic
import Gatehouse.Cache.Keys

/-!
# The typed cache

The operations on the cache that everything else uses. They turn values into their stored form and back, and count how
the calls of the engine ended; a value that cannot be read back was still found, and one that cannot be stored was
never put.
-/

namespace Gatehouse.Cache

open Json

variable {α : Type}

/-- A call of the engine that is not counted. -/
def uncounted (c : EngineCall) : CacheAction c.Reply := ExceptT.mk (Action.engine c)

/-- A call of the engine, counted under an operation by how it ended. -/
def counted (op : Operation) (c : EngineCall) : CacheAction c.Reply :=
  ExceptT.mk do
    let result ← Action.engine c
    Action.record (.operation op (.ofResult result))
    return result

/-- Reads a stored form. -/
def read [FromJson α] (b : Bytes) : Except CacheError α := (decode b).mapError CacheError.decoding

/-- Reads the stored form of an entry in a scan. One that ended too soon is passed over. -/
def readLenient [FromJson α] (b : Bytes) : Except CacheError (Option α) :=
  match read b with
  | .ok a => .ok (some a)
  | .error e => if e.isIncomplete then .ok none else .error e

/-- Reads the entries of a scan in their order. The first one that cannot be read, and is not passed over, fails them
all. -/
def readEntries [FromJson α] (entries : List (String × Bytes)) : Except CacheError (List (String × α)) := do
  return (← entries.mapM fun e => do return (← readLenient e.2).map fun a => (e.1, a)).filterMap id

/-- Whether a live entry has the key. -/
def has (key : String) : CacheAction Bool := counted .has (.has key)

/-- The value of a key. -/
def get [FromJson α] (key : String) : CacheAction α := do
  let b ← counted .get (.fetch key)
  ExceptT.mk (pure (read b))

/-- The lifetime given to the engine: none for a lifetime of zero. -/
def lifetime (expiration : Option Span) : Option Span := expiration.filter fun d => d.nanos ≠ 0

/-- Sets the value of a key, to live for a time or, if that is absent or zero, for ever. -/
def put [Encode α] (key : String) (value : α) (expiration : Option Span) : CacheAction Unit :=
  match Encode.encode value with
  | .ok b => counted .put (.put key b (lifetime expiration))
  | .error e => throw (.encoding e)

/-- Removes a key; one that is absent is no failure. -/
def delete (key : String) : CacheAction Unit := counted .delete (.delete key)

/-- Removes a key and tells whether a live entry had it. -/
def take (key : String) : CacheAction Bool := counted .take (.take key)

/-- How long the entry of a key still has, if it is to expire. -/
def remaining (key : String) : CacheAction (Option Span) := uncounted (.remaining key)

/-- The live keys that start with a text. -/
def keys (stem : String) : CacheAction (List String) := counted .scan (.keys stem)

/-- The values of the live keys that start with a text, with their keys. Entries whose stored form ended too soon are
left out. -/
def entries [FromJson α] (stem : String) : CacheAction (List (String × α)) := do
  let found ← counted .scan (.entries stem)
  ExceptT.mk (pure (readEntries found))

/-- The values of the live keys that start with a text. -/
def values [FromJson α] (stem : String) : CacheAction (List α) := do
  return (← entries stem).map Prod.snd

/-- The values of the live keys that start with a text, by their keys. -/
def items [FromJson α] (stem : String) : CacheAction (Table String α) := do
  return Table.ofList (← entries stem)

/-- Removes every entry. -/
def flush : CacheAction Unit := uncounted .flush

/-- Ends the cache. -/
def close : CacheAction Unit := uncounted .close

/-- A result in which a miss is the absence of a value. -/
def optional : Except CacheError α → Except CacheError (Option α)
  | .ok a => .ok (some a)
  | .error e => if e.isNotFound then .ok none else .error e

end Gatehouse.Cache
