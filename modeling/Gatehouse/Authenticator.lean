import Gatehouse.Revocation
import Gatehouse.Token.Claims

/-!
# Verification of access tokens

A token whose signature is good is accepted if it has not expired, is not revoked, and was issued to an account of an
allowed type.
-/

namespace Gatehouse.Authenticator

/-- What an authorization header starts with. -/
def scheme : String := "Bearer "

/-- The bearer token of an authorization header. -/
def bearer? (header : String) : Option String :=
  if startsWith scheme header then
    let token := String.ofList (header.toList.drop scheme.length)
    if token.isEmpty then none else some token
  else none

/-- The bearer token of an authorization header that has to be there. -/
def requireBearer (header : Option String) : Except ServiceError String :=
  match header.bind bearer? with
  | some token => .ok token
  | none => .error .unauthorized

/-- Whether a token has expired. -/
def hasExpired (t : AccessToken) (now : Instant) : Bool := t.expiresAt.any fun e => e ≤ now

/-- The type of account that a token names, among those allowed. -/
def allowed? (t : AccessToken) (allowed : List AccountType) : Option AccountType :=
  let act := ((t.claim "act").bind Json.Value.text?).getD ""
  allowed.find? fun a => a.label = act

/-- Accepts a token that was issued to an account of an allowed type. -/
def verify (t : AccessToken) (allowed : List AccountType) : ServiceAction AccountType := do
  if t.expiresAt.isSome then
    let now ← (Action.clock : Action Instant)
    if hasExpired t now then throw .tokenExpired
  if ← Revocation.isRevoked t.id then throw .tokenRevoked
  match allowed? t allowed with
  | some a => return a
  | none => throw .wrongAccountType

end Gatehouse.Authenticator
