import Gatehouse.Cache.Typed

/-!
# Revocation of tokens

The record of a revoked token says since when it is revoked, and a marker in the cache says it to every verification.
A marker outlives its token by a margin. When the service starts, the markers are restored from the records.
-/

namespace Gatehouse.Revocation

/-- How much longer than its token a marker lives. -/
def margin : Span := Span.ofSeconds 3600

/-- The lifetime of a marker that should be gone already. It is not zero, which would mean for ever. -/
def minLifetime : Span := Span.ofMillis 1

/-- The lifetime of a marker: until the margin after the expiry of its token, and for ever if that never expires. It
is abandoned if there is no instant of that time. -/
def markerLifetime (expiresAt : Option Instant) (now : Instant) : Outcome (Option Span) :=
  match expiresAt with
  | none => .returned none
  | some t =>
    match t.add? margin with
    | none => .abandoned
    | some deadline =>
      let left := deadline.since now
      .returned (some (if left ≤ 0 then minLifetime else ⟨left.toNat⟩))

/-- Writes the marker of a record. -/
def mark (r : TokenRecord) (now : Instant) : ServiceAction Unit := do
  let lifetime ← (Action.ofOutcome (markerLifetime r.expiresAt now) : Action (Option Span))
  CacheAction.lift (Cache.put (Keys.revokedToken r.id) true lifetime)

/-- A call of the store of records. -/
def store (c : StoreCall) : ServiceAction c.Reply := ExceptT.mk (Action.store c)

/-- Revokes the token of a record: saves since when, unless the record says it already, and then writes the marker. -/
def revoke (r : TokenRecord) : ServiceAction TokenRecord := do
  let now ← (Action.clock : Action Instant)
  let revoked := if r.isRevoked then r else { r with revokedAt := some now }
  if !r.isRevoked then
    store (.save revoked)
  mark revoked now
  Action.record (.revocation r.kind)
  return revoked

/-- Revokes the token with an id. -/
def revokeById (id : String) : ServiceAction TokenRecord := do
  match ← store (.find id) with
  | some r => revoke r
  | none => throw (.notFound ("access token " ++ id))

/-- Whether the token with an id has a marker. -/
def isRevoked (id : String) : ServiceAction Bool := CacheAction.lift (Cache.has (Keys.revokedToken id))

/-- Writes the markers of the revoked records of a kind, and tells how many there are. -/
def restore (now : Instant) (kind : TokenKind) : ServiceAction Nat := do
  let records ← store (.revoked kind now)
  records.forM fun r => mark r now
  return records.length

/-- Restores the markers of all revoked tokens that have not expired, and tells how many there are. -/
def load : ServiceAction Nat := do
  let now ← (Action.clock : Action Instant)
  let counts ← TokenKind.all.mapM (restore now)
  let total := counts.foldl (· + ·) 0
  Action.record (.loaded total)
  return total

end Gatehouse.Revocation
