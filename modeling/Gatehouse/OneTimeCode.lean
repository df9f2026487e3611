import Gatehouse.Limiter
import Gatehouse.Settings.Basic

/-!
# One-time codes

A code that is sent to a credential over a medium is a marker in the cache for as long as it can be used. A limiter
bounds how many codes are sent to one credential. A code that is used is removed, and the limiter starts again.
-/

namespace Gatehouse.OneTimeCode

/-- The name space of the limiter of sent codes. -/
def space : String := "otp"

/-- The limiter of the codes sent to a credential over a medium. -/
def limiter (settings : CodeSettings) (medium credential : String) : Limiter :=
  Limiter.of space [medium, credential] settings.sendWindow

/-- The code of a list of digits. -/
def ofDigits {n : Nat} (digits : Fin n → Fin 10) : String :=
  String.ofList ((List.finRange n).map fun i => Digits.digitChar (digits i).val)

/-- The length of the longest text that can be allocated. That memory may run out for a shorter one is not modelled. -/
def maxLength : Nat := 9223372036854775807

/-- A random code. It is abandoned if there is no room for one of its length. -/
def generate (length : Nat) : Action String :=
  if length ≤ maxLength then do return ofDigits (← Action.draw 9 length) else .abandon

/-- Makes a code for a credential and a medium. It can be used before the limiter knows of it. -/
def issue (settings : CodeSettings) (medium credential : String) : ServiceAction String := do
  let limiter := limiter settings medium credential
  limiter.guard settings.sendLimit
  let code ← (generate settings.length : Action String)
  CacheAction.lift (Cache.put (Keys.code medium credential code) true (some settings.lifetime))
  limiter.record
  return code

/-- Uses a code, and tells whether it was good. -/
def verify (settings : CodeSettings) (medium credential code : String) : ServiceAction Bool := do
  if ← CacheAction.lift (Cache.take (Keys.code medium credential code)) then
    (limiter settings medium credential).clear
    return true
  else return false

end Gatehouse.OneTimeCode
