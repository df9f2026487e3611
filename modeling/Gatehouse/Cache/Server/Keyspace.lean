import Gatehouse.Cache.Server.Command
import Gatehouse.Cache.Server.Glob
import Gatehouse.Cache.Server.Reply
import Gatehouse.Table

/-!
# The key space of a server

What a server does with commands. Keys are in the order of their octets and expire by the wall clock in milliseconds:
an entry is gone once the clock has reached its deadline. A scan goes through the live keys by index, a page at a
time; its pages may overlap. Answers can be laid down in advance for commands to come, and keys can be made to vanish
once a scan has ended.
-/

namespace Gatehouse

/-- An entry of a key space. -/
structure KeyspaceEntry where
  value : Bytes
  /-- Milliseconds since 1 January 1970, absent for an entry that never expires. -/
  deadline : Option Nat
deriving DecidableEq

/-- A server with one key space. -/
structure Keyspace where
  entries : Table Bytes KeyspaceEntry := Table.empty
  /-- Whether a page starts with the last key of the page before it. -/
  overlap : Bool := false
  /-- The password that is asked for. -/
  password : Option String := none
  /-- Answers to coming commands, by the name of the command. -/
  scripts : List (String × Response) := []
  /-- Keys that go at the end of the next scan. -/
  vanishing : List Bytes := []
  /-- The words of the commands received, the latest first. -/
  received : List (List Bytes) := []

namespace Keyspace

/-- Whether an entry is live. -/
def isLive (nowMillis : Nat) (e : KeyspaceEntry) : Bool := e.deadline.all fun d => nowMillis < d

/-- The live entry of a key. -/
def live? (s : Keyspace) (nowMillis : Nat) (key : Bytes) : Option KeyspaceEntry :=
  (s.entries.get? key).filter (isLive nowMillis)

/-- The live keys, ascending. -/
def liveKeys (s : Keyspace) (nowMillis : Nat) : List Bytes := (s.entries.filter fun _ e => isLive nowMillis e).keys

/-- The keys of one page that a pattern admits. -/
def page (s : Keyspace) (nowMillis : Nat) (cursor : Nat) (pattern : Glob) (count : Nat) : List Bytes :=
  let first := if s.overlap then cursor - 1 else cursor
  (((s.liveKeys nowMillis).take (cursor + count)).drop first).filter pattern.admits

/-- The cursor of the page after one, and zero after the last page. -/
def nextCursor (s : Keyspace) (nowMillis : Nat) (cursor count : Nat) : Nat :=
  if (s.liveKeys nowMillis).length ≤ cursor + count then 0 else cursor + count

/-- Removes the keys that vanish at the end of a scan. -/
def vanish (s : Keyspace) : Keyspace :=
  { s with entries := s.vanishing.foldl Table.erase s.entries, vanishing := [] }

/-- What the server does on a command. -/
def execute (nowMillis : Nat) (s : Keyspace) : Command → Response × Keyspace
  | .auth _ password => (if s.password.all (· = password) then .reply .okay else .refusal, s)
  | .select _ => (.reply .okay, s)
  | .holds key => (.reply (.int (if (s.live? nowMillis (Bytes.ofText key)).isSome then 1 else 0)), s)
  | .get key =>
    (.reply (match s.live? nowMillis (Bytes.ofText key) with
      | some e => .data e.value
      | none => .nil), s)
  | .set key value millis =>
    (.reply .okay, { s with entries := s.entries.insert (Bytes.ofText key) ⟨value, millis.map (nowMillis + ·)⟩ })
  | .del key =>
    (.reply (.int (if (s.live? nowMillis (Bytes.ofText key)).isSome then 1 else 0)),
      { s with entries := s.entries.erase (Bytes.ofText key) })
  | .pttl key =>
    (.reply (.int (match s.live? nowMillis (Bytes.ofText key) with
      | none => -2
      | some ⟨_, none⟩ => -1
      | some ⟨_, some d⟩ => d - nowMillis)), s)
  | .scan cursor pattern count =>
    let next := s.nextCursor nowMillis cursor count
    (.reply (.array [.data (Bytes.ofText (Digits.natText next)),
        .array ((s.page nowMillis cursor (Glob.parse pattern) count).map .data)]),
      if next = 0 then s.vanish else s)
  | .flush => (.reply .okay, { s with entries := Table.empty })

/-- What comes back for a command: the answer laid down for it, if there is one, and else what the server does. -/
def answer (nowMillis : Nat) (c : Command) (s : Keyspace) : Response × Keyspace :=
  let s := { s with received := c.words :: s.received }
  match s.scripts.lookup c.name with
  | some r => (r, { s with scripts := s.scripts.eraseP fun e => e.1 = c.name })
  | none => s.execute nowMillis c

/-- More pages than any scan has: every answer laid down can start it over. -/
def scanBound (s : Keyspace) : Nat := (s.scripts.length + 1) * (s.entries.size + 2)

end Keyspace

end Gatehouse
