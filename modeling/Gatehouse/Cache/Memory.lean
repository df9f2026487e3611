import Gatehouse.Cache.Call

/-!
# The engine in memory

A table of values with deadlines on the clock that only goes forward. An entry is live while the clock is before its
deadline; an expired one counts as absent and stays until it is taken, deleted, overwritten or swept. Closing empties
the table.
-/

namespace Gatehouse

/-- The first second of the forward clock that has no instant. -/
def secondLimit : Nat := 9223372036854775808

namespace Memory

/-- A stored value and the reading of the clock at which it expires. -/
structure Entry where
  value : Bytes
  deadline : Option Nat
deriving DecidableEq

/-- Whether an entry is live. -/
def Entry.isLive (e : Entry) (now : Nat) : Bool := e.deadline.all fun d => now < d

/-- The times at which expired entries are removed: the next one, and the interval to those that follow. The timer
counts milliseconds from its start. -/
structure Sweep where
  started : Nat
  interval : Nat
  due : Nat
deriving DecidableEq

end Memory

/-- The engine in memory. -/
structure Memory where
  entries : Table String Memory.Entry
  closed : Bool
  sweep : Option Memory.Sweep
  listing : Listing (String × Memory.Entry) := .ascending

namespace Memory

/-- An open engine without entries, which is swept at every multiple of an interval. There is no sweep at an interval of
zero. -/
def start (now : Nat) (interval : Option Span) : Memory :=
  { entries := Table.empty
    closed := false
    sweep := interval.bind fun d => if d.nanos = 0 then none else some ⟨now, d.nanos, now + d.nanos⟩ }

/-- The entry of a key, if it is live. -/
def live? (m : Memory) (now : Nat) (key : String) : Option Entry := (m.entries.get? key).filter fun e => e.isLive now

/-- The live entries whose keys start with a text, in the order that the engine lists them in. -/
def liveUnder (m : Memory) (now : Nat) (stem : String) : List (String × Entry) :=
  m.listing.arrange (m.entries.entries.filter fun e => startsWith stem e.1 && e.2.isLive now)

/-- The deadline of an entry written now; there is none if its instant does not exist. -/
def deadline? (now : Nat) (lifetime : Span) : Option Nat :=
  if now + lifetime.nanos < secondLimit * 1000000000 then some (now + lifetime.nanos) else none

/-- Removes the expired entries. -/
def prune (m : Memory) (now : Nat) : Memory := { m with entries := m.entries.filter fun _ e => e.isLive now }

/-- The number of entries, expired ones included. -/
def resident (m : Memory) : Nat := m.entries.size

/-- The time that the timer has reached: the last of its milliseconds that is over. -/
def Sweep.reached (s : Sweep) (now : Nat) : Nat := s.started + (now - s.started) / 1000000 * 1000000

/-- The first time after `now` in a sequence of times. -/
def Sweep.after (s : Sweep) (now : Nat) : Sweep :=
  { s with due := s.due + s.interval * ((s.reached now - s.due) / s.interval + 1) }

/-- Whether the next time of a sweep has come. At an interval of whole milliseconds it comes at every multiple of the
interval that the clock has reached. -/
def Sweep.isDue (s : Sweep) (now : Nat) : Bool := s.due ≤ s.reached now

/-- What the sweep does once the clock has moved. It ends when the engine is closed. -/
def tick (m : Memory) (now : Nat) : Memory :=
  match m.sweep with
  | none => m
  | some s =>
    if s.isDue now then
      if m.closed then { m with sweep := none } else { m.prune now with sweep := some (s.after now) }
    else m

/-- A call of an open engine. -/
def respond (now : Nat) (m : Memory) : (c : EngineCall) → c.Answer × Memory
  | .has key => (.returned (.ok (m.live? now key).isSome), m)
  | .fetch key =>
    (.returned (match m.live? now key with
      | some e => .ok e.value
      | none => .error .keyNotFound), m)
  | .put key value none => (.returned (.ok ()), { m with entries := m.entries.insert key ⟨value, none⟩ })
  | .put key value (some lifetime) =>
    match deadline? now lifetime with
    | some d => (.returned (.ok ()), { m with entries := m.entries.insert key ⟨value, some d⟩ })
    | none => (.abandoned, m)
  | .delete key => (.returned (.ok ()), { m with entries := m.entries.erase key })
  | .take key => (.returned (.ok (m.live? now key).isSome), { m with entries := m.entries.erase key })
  | .keys stem => (.returned (.ok ((m.liveUnder now stem).map Prod.fst)), m)
  | .entries stem => (.returned (.ok ((m.liveUnder now stem).map fun e => (e.1, e.2.value))), m)
  | .remaining key =>
    (.returned (match m.live? now key with
      | some e => .ok (e.deadline.map fun d => ⟨d - now⟩)
      | none => .error .keyNotFound), m)
  | .flush => (.returned (.ok ()), { m with entries := Table.empty })
  | .close => (.returned (.ok ()), { m with entries := Table.empty, closed := true })

/-- A call of the engine. Once it is closed every call fails. -/
def perform (now : Nat) (m : Memory) (c : EngineCall) : c.Answer × Memory :=
  if m.closed then (.returned (.error .engineClosed), m) else m.respond now c

end Memory

end Gatehouse
