import Gatehouse.Json.Codec

/-!
# Encodings that can fail

Almost every type has a JSON form for all of its values. A map whose keys are values of any shape does not: the name
of a member is a text, so only keys with a natural text can be written.
-/

namespace Gatehouse.Json

/-- Why a value has no JSON form. -/
inductive EncodeError where
  /-- A key of a map has no text. -/
  | keyNotText
deriving DecidableEq

/-- What is reported of an encoding failure. -/
def EncodeError.message : EncodeError → String
  | .keyNotText => "key must be a string"

/-- Types whose values may be stored. -/
class Encode (α : Type) where
  encode : α → Except EncodeError Bytes

instance (priority := low) {α : Type} [ToJson α] : Encode α := ⟨fun a => .ok (Json.encode a)⟩

/-- A map with keys of any shape. -/
structure ValueMap where
  entries : List (Value × Value)

/-- The text of a key: a text itself, and the written form of a truth value or a number. -/
def keyText? : Value → Option String
  | .text s => some s
  | .bool b => some (if b then "true" else "false")
  | .number (.int n) => some (Digits.intText n)
  | .number (.float x) => some (String.ofList x.chars)
  | _ => none

/-- The JSON form of a map with keys of any shape. -/
def ValueMap.toJson? (m : ValueMap) : Option Value := do
  let members ← m.entries.mapM fun (e : Value × Value) => do
    let name ← keyText? e.1
    pure (name, e.2)
  pure (.object members)

instance : Encode ValueMap :=
  ⟨fun m => match m.toJson? with
    | some v => .ok (write v)
    | none => .error .keyNotText⟩

end Gatehouse.Json
