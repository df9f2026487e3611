import Gatehouse.Text.Digits

/-!
# Integers in settings

An integer is written in decimal digits, with at most one sign before them; a minus sign only where the type has
negative numbers. The digits are taken one by one, so that a bad digit and a number that is too large are told apart
by which comes first.
-/

namespace Gatehouse

/-- Why a text is no integer of a type. -/
inductive IntegerError where
  | empty
  | invalidDigit
  | tooLarge
  | tooSmall
deriving DecidableEq

namespace IntegerError

/-- The text of the failure. -/
def message : IntegerError → String
  | empty => "cannot parse integer from empty string"
  | invalidDigit => "invalid digit found in string"
  | tooLarge => "number too large to fit in target type"
  | tooSmall => "number too small to fit in target type"

end IntegerError

/-- The integers of a type. -/
structure IntegerRange where
  low : Int
  high : Int

namespace IntegerRange

/-- A word of 16 bits. -/
def u16 : IntegerRange := ⟨0, 65535⟩

/-- A word of 64 bits. -/
def u64 : IntegerRange := ⟨0, 18446744073709551615⟩

/-- A signed word of 64 bits. -/
def i64 : IntegerRange := ⟨-9223372036854775808, 9223372036854775807⟩

/-- Takes digits after a number, each of which multiplies it by ten and is added or, below zero, taken away. -/
def digits (r : IntegerRange) (negative : Bool) : List Char → Int → Except IntegerError Int
  | [], n => .ok n
  | c :: rest, n =>
    match Digits.value? c with
    | none => .error .invalidDigit
    | some d =>
      let next := if negative then 10 * n - d else 10 * n + d
      if next < r.low then .error .tooSmall
      else if r.high < next then .error .tooLarge
      else digits r negative rest next

/-- Reads an integer of a type. -/
def parse (r : IntegerRange) (text : List Char) : Except IntegerError Int :=
  match text with
  | [] => .error .empty
  | ['+'] | ['-'] => .error .invalidDigit
  | '+' :: rest => r.digits false rest 0
  | '-' :: rest => if r.low < 0 then r.digits true rest 0 else .error .invalidDigit
  | text => r.digits false text 0

end IntegerRange

end Gatehouse
