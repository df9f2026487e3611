import Gatehouse.Cache.Engine
import Gatehouse.Proofs.Cache.Refinement

/-!
# What a server is documented to do

Of a server nothing is known but how it is documented to reply. It may be any state that answers commands, as long as
every command about a key is replied by the entry that the key has, an entry is there until its deadline comes, and a
scan that starts at zero comes back to zero after finitely many pages, which show every matching key at least once and
no other.
-/

namespace Gatehouse

/-- The entry of each key that has one, by the octets of the key. -/
abbrev Database := Bytes → Option KeyspaceEntry

/-- A server: how it answers at a time, the database that its documentation speaks of, and a bound on the pages of a
scan. -/
structure Server (σ : Type) where
  answer : (nowMillis : Nat) → Peer σ
  database : (nowMillis : Nat) → σ → Database
  pageBound : σ → Nat
  /-- The states in which nobody but the client uses the server. -/
  Sound : σ → Prop

namespace Command

/-- The first deadline that the server does not take. -/
def deadlineLimit : Nat := 9223372036854775808

/-- The commands about keys that are used as documented: the time to live is positive and its deadline is taken. -/
def Proper (nowMillis : Nat) : Command → Prop
  | .holds _ | .get _ | .del _ | .pttl _ | .flush => True
  | .set _ _ millis => ∀ n ∈ millis, 0 < n ∧ nowMillis + n < deadlineLimit
  | .auth _ _ | .select _ | .scan _ _ _ => False

/-- The documented reply to a command about keys. -/
def reply (nowMillis : Nat) (db : Database) : Command → Reply
  | .holds key => .int (if (db (Bytes.ofText key)).isSome then 1 else 0)
  | .get key =>
    match db (Bytes.ofText key) with
    | some e => .data e.value
    | none => .nil
  | .del key => .int (if (db (Bytes.ofText key)).isSome then 1 else 0)
  | .pttl key =>
    .int (match db (Bytes.ofText key) with
      | none => -2
      | some ⟨_, none⟩ => -1
      | some ⟨_, some deadline⟩ => deadline - nowMillis)
  | _ => .okay

/-- The database with another entry, or none, under one key. -/
def put (db : Database) (key : Bytes) (e : Option KeyspaceEntry) : Database := fun k => if k = key then e else db k

/-- The documented effect of a command about keys. -/
def effect (nowMillis : Nat) (db : Database) : Command → Database
  | .set key value millis => put db (Bytes.ofText key) (some ⟨value, millis.map (nowMillis + ·)⟩)
  | .del key => put db (Bytes.ofText key) none
  | .flush => fun _ => none
  | _ => db

end Command

namespace Server

variable {σ : Type} (S : Server σ)

/-- The reply to a scan: the next cursor and the keys of the page. -/
def scanReply (next : Nat) (page : List Bytes) : Response :=
  .reply (.array [.data (Bytes.ofText (Digits.natText next)), .array (page.map .data)])

/-- The pages of a scan from a cursor on, until the cursor comes back to zero. -/
inductive Walk (nowMillis : Nat) (pattern : Bytes) (count : Nat) : Nat → σ → List (List Bytes) → σ → Prop where
  | last {cursor : Nat} {s s' : σ} {page : List Bytes}
      (h : S.answer nowMillis (.scan cursor pattern count) s = (scanReply 0 page, s')) :
      Walk nowMillis pattern count cursor s [page] s'
  | more {cursor next : Nat} {s s₁ s' : σ} {page : List Bytes} {pages : List (List Bytes)} (hnext : next ≠ 0)
      (hword : next < Reply.wordLimit)
      (h : S.answer nowMillis (.scan cursor pattern count) s = (scanReply next page, s₁))
      (rest : Walk nowMillis pattern count next s₁ pages s') :
      Walk nowMillis pattern count cursor s (page :: pages) s'

/-- A server does what it is documented to do. A real server may be a millisecond off with an expiry; `expiry` takes it
to be exact, so that an entry is there before its millisecond and gone from then on. -/
structure Documented : Prop where
  command : ∀ {nowMillis s c}, S.Sound s → c.Proper nowMillis →
    ∃ s', S.answer nowMillis c s = (.reply (c.reply nowMillis (S.database nowMillis s)), s') ∧ S.Sound s' ∧
      S.database nowMillis s' = c.effect nowMillis (S.database nowMillis s)
  scan : ∀ {nowMillis s count}, S.Sound s → ∀ pattern, 0 < count →
    ∃ pages s', S.Walk nowMillis pattern count 0 s pages s' ∧ pages.length ≤ S.pageBound s ∧ S.Sound s' ∧
      S.database nowMillis s' = S.database nowMillis s ∧
      ∀ key, key ∈ pages.flatten ↔
        (Glob.parse pattern).admits key = true ∧ (S.database nowMillis s key).isSome = true
  expiry : ∀ {nowMillis laterMillis s key}, S.Sound s → nowMillis ≤ laterMillis →
    S.database laterMillis s key = (S.database nowMillis s key).filter (Keyspace.isLive laterMillis)

end Server

/-! ## Clients of a server -/

/-- A client with its connection to a server. -/
structure Session (σ : Type) where
  client : Client
  isOpen : Bool
  far : σ

/-- The cache over a server: the client asks, the server answers by its clock. -/
def Server.backend {σ : Type} (S : Server σ) : Backend (Session σ) where
  perform clocks r c :=
    if r.isOpen then
      let (a, far) := r.client.perform (S.answer clocks.unixMillis) (S.pageBound r.far) c r.far
      (a, { r with far, isOpen := c.method ≠ .close })
    else (.returned (.error .engineClosed), r)
  maintain _ _ r := r

end Gatehouse
