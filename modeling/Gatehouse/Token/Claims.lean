import Gatehouse.Json.Codec
import Gatehouse.Time.Instant

/-!
# Claims of an access token

The claims of a token are an object with the token's id, its subject, optionally its expiry and the type of account,
and any other members. Verification looks at a token only through its id, its subject, its expiry and its claims by
name.
-/

namespace Gatehouse

open Json

/-- What verification sees of an access token. -/
structure AccessToken where
  id : String
  subject : String
  /-- Absent for a token that never expires. -/
  expiresAt : Option Instant
  claim : String → Option Value

/-- The claims of an access token. -/
structure TokenClaims where
  jti : String
  sub : String
  /-- The expiry in seconds since 1 January 1970. -/
  exp : Option Int64
  act : Option String
  /-- The other members, by name: a hash map. -/
  extra : Table String Value

namespace TokenClaims

/-- The expiry as an instant; a second outside the years that exist is no expiry. -/
def expiresAt (c : TokenClaims) : Option Instant := c.exp.bind fun t => Instant.ofSeconds? t.toInt

/-- The claim of a name. -/
def claim (c : TokenClaims) (name : String) : Option Value :=
  if name = "jti" then some (toJson c.jti)
  else if name = "sub" then some (toJson c.sub)
  else if name = "exp" then c.exp.map toJson
  else if name = "act" then c.act.map toJson
  else c.extra.get? name

/-- The token with these claims. -/
def toAccessToken (c : TokenClaims) : AccessToken :=
  { id := c.jti, subject := c.sub, expiresAt := c.expiresAt, claim := c.claim }

/-- Claims that are being read. -/
structure Draft where
  jti : Option String := none
  sub : Option String := none
  exp : Option (Option Int64) := none
  act : Option (Option String) := none
  extra : Table String Value := Table.empty

open Scanner in
/-- Reads a member of the claims into a draft. A claim of its own is read once; of two other members of one name the
later one is kept. -/
def member (name : String) (d : Draft) : Scanner Draft :=
  let own : Option (Member Draft) :=
    if name = "jti" then some (field d.jti FromJson.scan fun a => { d with jti := some a })
    else if name = "sub" then some (field d.sub FromJson.scan fun a => { d with sub := some a })
    else if name = "exp" then some (field d.exp FromJson.scan fun a => { d with exp := some a })
    else if name = "act" then some (field d.act FromJson.scan fun a => { d with act := some a })
    else none
  match own with
  | some m => memberInto (fun _ _ => m) name d
  | none => do
    colon
    return { d with extra := d.extra.insert name (← value (depthLimit - 1)) }

/-- The claims, once those that must be there are. -/
def Draft.finish (d : Draft) : Option TokenClaims := do
  return { jti := ← d.jti, sub := ← d.sub, exp := d.exp.join, act := d.act.join, extra := d.extra }

open Scanner in
/-- Takes claims. They are read from an object only. -/
def scan : Scanner TokenClaims := do
  if (← token) = 0x7B then do
    advance
    complete (Draft.finish (← membersOf text member {}))
  else unexpected

end TokenClaims

/-- The claims of its own that are written: an absent expiry or type of account is left out. -/
def TokenClaims.own (c : TokenClaims) : List (String × Value) :=
  [("jti", toJson c.jti), ("sub", toJson c.sub)] ++ (c.exp.map fun t => ("exp", toJson t)).toList ++
    (c.act.map fun a => ("act", toJson a)).toList

/-- The other members are listed by ascending name, as a hash map may do. -/
instance : ToJson TokenClaims := ⟨fun c => .object (c.own ++ c.extra.entries)⟩

/-- The other members come in any order. -/
instance : Forms TokenClaims where
  HasForm c w := ∃ others : List (String × Value), others.Perm c.extra.entries ∧ w = .object (c.own ++ others)
  hasForm_toJson c := ⟨c.extra.entries, .refl _, rfl⟩

instance : FromJson TokenClaims := ⟨TokenClaims.scan⟩

end Gatehouse
