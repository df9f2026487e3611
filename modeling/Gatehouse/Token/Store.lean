import Gatehouse.ServiceError
import Gatehouse.Token.Record

/-!
# The store of token records

Records outlive the cache in a store of their own. A record that is saved takes the place of an earlier one with its id.
-/

namespace Gatehouse

/-- A call of the store of records. -/
inductive StoreCall where
  /-- The record with an id. -/
  | find (id : String)
  /-- Adds or replaces a record. -/
  | save (record : TokenRecord)
  /-- The records of a kind that are revoked and have not expired. -/
  | revoked (kind : TokenKind) (now : Instant)
deriving DecidableEq

/-- The three calls without their arguments. -/
inductive StoreMethod where
  | find
  | save
  | revoked
deriving DecidableEq

namespace StoreCall

/-- What a call is answered with when it succeeds. -/
abbrev Reply : StoreCall → Type
  | find _ => Option TokenRecord
  | save _ => Unit
  | revoked _ _ => List TokenRecord

/-- A call without its arguments. -/
def method : StoreCall → StoreMethod
  | find _ => .find
  | save _ => .save
  | revoked _ _ => .revoked

end StoreCall

/-- A store of records, by id. -/
structure TokenStore where
  records : Table String TokenRecord
  listing : Listing TokenRecord := .ascending

namespace TokenStore

/-- A store without records. -/
def empty : TokenStore := { records := Table.empty }

/-- The record with an id. -/
def find? (s : TokenStore) (id : String) : Option TokenRecord := s.records.get? id

/-- Adds or replaces a record. -/
def save (s : TokenStore) (r : TokenRecord) : TokenStore := { s with records := s.records.insert r.id r }

/-- The store of records of which a later one replaces an earlier one with its id. -/
def ofList (l : List TokenRecord) : TokenStore := l.foldl save empty

/-- The records of a kind that are revoked and have not expired, in the order that the store lists them in. -/
def revoked (s : TokenStore) (kind : TokenKind) (now : Instant) : List TokenRecord :=
  s.listing.arrange ((s.records.entries.map Prod.snd).filter fun r => r.kind = kind && r.isRevoked && !r.isExpired now)

/-- The number of records. -/
def size (s : TokenStore) : Nat := s.records.size

/-- A call of the store. -/
def perform (s : TokenStore) : (c : StoreCall) → c.Reply × TokenStore
  | .find id => (s.find? id, s)
  | .save record => ((), s.save record)
  | .revoked kind now => (s.revoked kind now, s)

end TokenStore

end Gatehouse
