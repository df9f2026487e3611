import Gatehouse.Text.Blank
import Gatehouse.Time.Calendar
import Gatehouse.Time.Instant

/-!
# Dates and times as text

Instants are written as RFC 3339 in UTC, with no fraction or one of 3, 6 or 9 digits, the fewest that are exact. The
reader is more lenient than that: fields may have fewer digits, blank characters may stand between them, the date and
the time may be joined by `T`, `t` or one blank, and any offset below a day is taken off.
-/

namespace Gatehouse.Rfc3339

/-! ## Writing -/

/-- A year as four digits, or with a sign and at least four digits outside 0 to 9999. -/
def yearText (year : Int) : List Char :=
  if 0 ≤ year ∧ year ≤ 9999 then Digits.padded 4 year.toNat
  else
    let digits := Digits.ofNat year.natAbs
    (if year < 0 then '-' else '+') :: (List.replicate (4 - digits.length) '0' ++ digits)

/-- The fraction of a second, in the fewest of 0, 3, 6 or 9 digits that are exact. -/
def fractionText (nanos : Nat) : List Char :=
  if nanos = 0 then []
  else if nanos % 1000000 = 0 then '.' :: Digits.padded 3 (nanos / 1000000)
  else if nanos % 1000 = 0 then '.' :: Digits.padded 6 (nanos / 1000)
  else '.' :: Digits.padded 9 nanos

/-- The characters of an instant's text. A leap second is written as second 60. -/
def chars (t : Instant) : List Char :=
  let date := Date.ofDay (t.seconds / 86400)
  let ofDay := (t.seconds % 86400).toNat
  let second := ofDay % 60 + t.nanos / 1000000000
  yearText date.year ++ '-' :: Digits.padded 2 date.month ++ '-' :: Digits.padded 2 date.day ++
    'T' :: Digits.padded 2 (ofDay / 3600) ++ ':' :: Digits.padded 2 (ofDay / 60 % 60) ++
    ':' :: Digits.padded 2 second ++ fractionText (t.nanos % 1000000000) ++ ['Z']

/-- The text of an instant. -/
def text (t : Instant) : String := String.ofList (chars t)

/-! ## Reading -/

/-- Takes digits off the front, at least one and at most `most`. -/
def digits? (most : Nat) (cs : List Char) : Option (Nat × List Char) :=
  let taken := (cs.take most).takeWhile Digits.isDigit
  if taken.isEmpty then none else some (Digits.toNat taken, cs.drop taken.length)

/-- A year: up to four digits, or a sign and any number of them. -/
def year? (cs : List Char) : Option (Int × List Char) :=
  match trimStart cs with
  | '-' :: rest => (digits? rest.length rest).map fun (n, rest) => (-n, rest)
  | '+' :: rest => (digits? rest.length rest).map fun (n, rest) => (n, rest)
  | rest => (digits? 4 rest).map fun (n, rest) => (n, rest)

/-- A field of one or two digits, after blank characters. -/
def field? (cs : List Char) : Option (Nat × List Char) := digits? 2 (trimStart cs)

/-- A given character, after blank characters. -/
def mark? (c : Char) (cs : List Char) : Option (List Char) :=
  match trimStart cs with
  | c' :: rest => if c = c' then some rest else none
  | [] => none

/-- An optional fraction: at least one digit after the point, of which nine count. -/
def fraction? : List Char → Option (Nat × List Char)
  | '.' :: rest => (digits? 9 rest).map fun (n, after) =>
    (n * Nat.pow 10 (9 - (rest.length - after.length)), after.dropWhile Digits.isDigit)
  | rest => some (0, rest)

/-- The two digits of one part of an offset. -/
def pair? : List Char → Option (Nat × List Char)
  | a :: b :: rest => do some (10 * (← Digits.value? a) + (← Digits.value? b), rest)
  | _ => none

/-- An offset from UTC in seconds: `Z`, `UTC`, or a sign with hours and minutes. -/
def offset? (cs : List Char) : Option (Int × List Char) :=
  if (cs.take 3).map asciiLower = ['u', 't', 'c'] then some (0, cs.drop 3)
  else match cs with
    | [] => none
    | c :: rest =>
      if c = 'Z' ∨ c = 'z' then some (0, rest)
      else if c = '+' ∨ c = '-' ∨ c = '\u2212' then do
        let (hours, rest) ← pair? rest
        let (minutes, rest) ← pair? (rest.dropWhile fun c => c == ':' || isBlank c)
        if 24 ≤ hours ∨ 60 ≤ minutes then none
        else
          let seconds : Int := 3600 * hours + 60 * minutes
          some (if c = '+' then seconds else -seconds, rest)
      else none

/-- The instant of a date and a time of day at an offset from UTC, if all of them exist. -/
def instant? (date : Date) (hour minute second nanos : Nat) (offset : Int) : Option Instant :=
  if date.isValid ∧ hour < 24 ∧ minute < 60 ∧ second ≤ 60 ∧ -262143 ≤ date.year ∧ date.year ≤ 262142 then
    let ofDay := 3600 * hour + 60 * minute + min second 59
    let seconds := date.toDay * 86400 + ofDay - offset
    if Instant.inRange seconds then some ⟨seconds, nanos + (if second = 60 then 1000000000 else 0)⟩ else none
  else none

/-- The instant that a text stands for. -/
def instantOf? (cs : List Char) : Option Instant := do
  let (year, cs) ← year? cs
  let (month, cs) ← field? (← mark? '-' cs)
  let (day, cs) ← field? (← mark? '-' cs)
  let cs ← match cs with
    | c :: rest => if c = 'T' ∨ c = 't' ∨ c = ' ' then some rest else none
    | [] => none
  let (hour, cs) ← field? cs
  let (minute, cs) ← field? (← mark? ':' cs)
  let (second, cs) ← field? (← mark? ':' cs)
  let (nanos, cs) ← fraction? cs
  let (offset, cs) ← offset? (trimStart cs)
  if (trimStart cs).isEmpty then instant? ⟨year, month, day⟩ hour minute second nanos offset else none

/-- Reads an instant from text. -/
def parse? (s : String) : Option Instant := instantOf? s.toList

end Gatehouse.Rfc3339
