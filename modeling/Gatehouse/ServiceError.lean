import Gatehouse.Cache.Error

/-!
# Failures of the service

Why a request to the service failed, and what an HTTP client is told of it. The status and the code tell the cause;
the message keeps the inner workings of the cache to itself.
-/

namespace Gatehouse

/-- Why a request to the service failed. -/
inductive ServiceError where
  /-- There is no bearer token. -/
  | unauthorized
  | tokenExpired
  | tokenRevoked
  /-- The token was issued to an account of another type. -/
  | wrongAccountType
  | notFound (what : String)
  /-- A limiter allows no more attempts for now. -/
  | rateLimited (limit used : Nat)
  | cache (cause : CacheError)
  /-- Something else failed, such as the store of records. -/
  | internal (what : String)
deriving DecidableEq

namespace ServiceError

/-- The status of the response. -/
def status : ServiceError → Nat
  | unauthorized => 401
  | tokenExpired => 401
  | tokenRevoked => 401
  | wrongAccountType => 403
  | notFound _ => 404
  | rateLimited _ _ => 429
  | cache _ => 500
  | internal _ => 500

/-- The code by which programs tell failures apart. -/
def code : ServiceError → String
  | unauthorized => "UNAUTHORIZED"
  | tokenExpired => "TOKEN_EXPIRED"
  | tokenRevoked => "TOKEN_REVOKED"
  | wrongAccountType => "INCORRECT_ACCOUNT_TYPE"
  | notFound _ => "NOT_FOUND"
  | rateLimited _ _ => "RATE_LIMIT_EXCEEDED"
  | cache _ => "CACHE_ERROR"
  | internal _ => "INTERNAL_ERROR"

/-- The text of a failure; absent if its cause is worded elsewhere. -/
def message? : ServiceError → Option String
  | unauthorized => some "Authentication required"
  | tokenExpired => some "Access token has expired"
  | tokenRevoked => some "Access token has been revoked"
  | wrongAccountType => some "Token is created for other account type"
  | notFound what => some ("Resource not found: " ++ what)
  | rateLimited limit used =>
    some ("Request failed due to rate-limit (" ++ Digits.natText used ++ "/" ++ Digits.natText limit ++ ")")
  | cache e => e.message?.map ("Cache error: " ++ ·)
  | internal what => some ("Internal error: " ++ what)

/-- The texts of the failures behind this one, from the outside in; absent if one of them is worded elsewhere. -/
def sources? : ServiceError → Option (List String)
  | cache e => e.message?.map fun m => m :: e.source?.toList
  | internal what => some [what]
  | _ => some []

/-- What an HTTP client is told. -/
def publicMessage : ServiceError → String
  | unauthorized => "Authentication required"
  | tokenExpired => "Access token has expired"
  | tokenRevoked => "Access token has been revoked"
  | wrongAccountType => "Token is created for other account type"
  | notFound what => what
  | rateLimited _ _ => "Too many requests. Please slow down."
  | cache _ => "Cache service error"
  | internal _ => "Internal server error"

end ServiceError

/-- A response to an HTTP client. -/
structure HttpResponse where
  status : Nat
  headers : List (String × String)
  body : Json.Value

open Json in
/-- The response that reports a failure. Only a limiter adds details. -/
def ServiceError.response (e : ServiceError) : HttpResponse :=
  let details : List (String × Value) := match e with
    | .rateLimited limit used => [("details", .object [("limit", .int limit), ("used", .int used)])]
    | _ => []
  { status := e.status
    headers := [("content-type", "application/json")]
    body := .object [("error", .object ([("code", .text e.code), ("message", .text e.publicMessage)] ++ details))] }

end Gatehouse
