import Gatehouse.Decimal.Binary64
import Gatehouse.Table

/-!
# JSON values

A value is kept with the members of its objects in the order in which they are written. Values that are read have no two
members of one name and list them by ascending name.
-/

namespace Gatehouse.Json

/-- A number: an integer in the range of a 64-bit word, signed or not, or a binary floating point number. -/
inductive Number where
  | int (n : Int)
  | float (x : Binary64)
deriving DecidableEq

/-- A JSON value. -/
inductive Value where
  | null
  | bool (b : Bool)
  | number (n : Number)
  | text (s : String)
  | array (items : List Value)
  | object (members : List (String × Value))

instance : Inhabited Value := ⟨.null⟩

namespace Value

/-- The value of an integer. -/
def int (n : Int) : Value := .number (.int n)

/-- The member of an object. -/
def member? (v : Value) (name : String) : Option Value :=
  match v with
  | .object members => members.lookup name
  | _ => none

/-- The text, if the value is one. -/
def text? : Value → Option String
  | .text s => some s
  | _ => none

end Value

end Gatehouse.Json
