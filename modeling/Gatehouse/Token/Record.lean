import Gatehouse.Token.Kind
import Gatehouse.Time.Rfc3339

/-!
# Token records

The record of an issued token is what survives a restart. It says whom the token was issued to, until when it is
valid, and since when it is revoked.
-/

namespace Gatehouse

instance : Json.ToJson Instant := ⟨fun t => .text (Rfc3339.text t)⟩

instance : Json.FromJson Instant :=
  ⟨do match Rfc3339.parse? (← Json.Scanner.string) with
    | some t => pure t
    | none => Json.Scanner.fail .mismatch⟩

/-- The durable record of an issued token. -/
structure TokenRecord where
  id : String
  kind : TokenKind
  subject : String
  /-- Absent for a token that never expires. -/
  expiresAt : Option Instant
  revokedAt : Option Instant
  createdAt : Instant
deriving DecidableEq

namespace TokenRecord

/-- Whether the token has been revoked. -/
def isRevoked (r : TokenRecord) : Bool := r.revokedAt.isSome

/-- Whether the token has expired: its last moment is the one before `expiresAt`. -/
def isExpired (r : TokenRecord) (now : Instant) : Bool := r.expiresAt.any fun t => t ≤ now

/-- A new record, under an id made of the kind's table and a unique part. -/
def issue (kind : TokenKind) (subject : String) (expiresAt : Option Instant) (unique : String) (now : Instant) :
    TokenRecord :=
  { id := kind.table ++ ":" ++ unique, kind, subject, expiresAt, revokedAt := none, createdAt := now }

/-- A record that is being read. -/
structure Draft where
  id : Option String := none
  kind : Option TokenKind := none
  subject : Option String := none
  expiresAt : Option (Option Instant) := none
  revokedAt : Option (Option Instant) := none
  createdAt : Option Instant := none

open Json.Scanner in
/-- The fields of a record by name. -/
def fields (name : String) (d : Draft) : Member Draft :=
  if name = "id" then field d.id Json.FromJson.scan fun a => { d with id := some a }
  else if name = "kind" then field d.kind Json.FromJson.scan fun a => { d with kind := some a }
  else if name = "subject_id" then field d.subject Json.FromJson.scan fun a => { d with subject := some a }
  else if name = "expired_at" then field d.expiresAt Json.FromJson.scan fun a => { d with expiresAt := some a }
  else if name = "revoked_at" then field d.revokedAt Json.FromJson.scan fun a => { d with revokedAt := some a }
  else if name = "created_at" then field d.createdAt Json.FromJson.scan fun a => { d with createdAt := some a }
  else .unknown

/-- The record, once every field that must be there is. -/
def Draft.finish (d : Draft) : Option TokenRecord := do
  return { id := ← d.id, kind := ← d.kind, subject := ← d.subject, expiresAt := d.expiresAt.join,
           revokedAt := d.revokedAt.join, createdAt := ← d.createdAt }

open Json.Scanner in
/-- The fields of a record by place. -/
def places : Json.Scanner TokenRecord := do
  let id ← firstPlace Json.FromJson.scan
  let kind ← nextPlace Json.FromJson.scan
  let subject ← nextPlace Json.FromJson.scan
  let expiresAt ← nextPlace Json.FromJson.scan
  let revokedAt ← nextPlace Json.FromJson.scan
  let createdAt ← nextPlace Json.FromJson.scan
  return { id, kind, subject, expiresAt, revokedAt, createdAt }

end TokenRecord

open Json in
instance : ToJson TokenRecord :=
  ⟨fun r => .object [("id", toJson r.id), ("kind", toJson r.kind), ("subject_id", toJson r.subject),
    ("expired_at", toJson r.expiresAt), ("revoked_at", toJson r.revokedAt), ("created_at", toJson r.createdAt)]⟩

instance : Json.FromJson TokenRecord :=
  ⟨Json.Scanner.record {} TokenRecord.fields TokenRecord.Draft.finish TokenRecord.places⟩

end Gatehouse
