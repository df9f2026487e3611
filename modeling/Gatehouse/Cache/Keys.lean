import Gatehouse.Text.Digits

/-!
# Keys

Every entry of the cache is under a key that starts with the domain it belongs to: revoked tokens, one-time codes, or
attempts that a limiter counts.
-/

namespace Gatehouse.Keys

/-- The marker of a revoked token. -/
def revokedToken (id : String) : String := "auth:revoked_" ++ id

/-- The start of the keys of the codes sent to a credential over a medium. -/
def codeStem (medium credential : String) : String := "auth:code_" ++ medium ++ "_" ++ credential

/-- A code sent to a credential over a medium. -/
def code (medium credential code : String) : String := codeStem medium credential ++ ":" ++ code

/-- The start of the keys of the attempts that a limiter counts. -/
def limiterStem (space : String) (ids : List String) : String := "rl:" ++ space ++ ":" ++ String.intercalate "_" ids

/-- An attempt in a second. -/
def attempt (stem : String) (unixSeconds : Int) : String := stem ++ ":" ++ Digits.intText unixSeconds

end Gatehouse.Keys
