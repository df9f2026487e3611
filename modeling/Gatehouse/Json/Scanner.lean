import Gatehouse.Json.Value
import Gatehouse.Text.Bytes

/-!
# Reading JSON

A scanner takes a value off the front of octets and leaves the rest. It knows what it is to read, and fails as soon as
an octet shows that the value is something else. There are three causes of failure, and which of them arises depends
only on the octets up to the one that fails: the octets end too soon, they are no JSON, or they are JSON of another
shape.
-/

namespace Gatehouse.Json

/-- Why octets could not be read as a value. -/
inductive DecodeError where
  /-- The octets end within a value. -/
  | truncated
  /-- The octets are not JSON. -/
  | malformed
  /-- The octets are JSON that does not fit what is read. -/
  | mismatch
deriving DecidableEq

/-- Takes something off the front of octets. -/
abbrev Scanner (α : Type) := StateT Bytes (Except DecodeError) α

namespace Scanner

/-- Fails. -/
def fail {α : Type} (e : DecodeError) : Scanner α := throw e

/-- Blank octets: space, tab, line feed and carriage return. -/
def isSpace (c : UInt8) : Bool := c == 0x20 || c == 0x09 || c == 0x0A || c == 0x0D

/-- Drops blank octets. -/
def blanks : Scanner Unit := modify (List.dropWhile isSpace)

/-- The next octet, which stays in place. -/
def peek : Scanner (Option UInt8) := return (← get).head?

/-- Drops one octet. -/
def advance : Scanner Unit := modify List.tail

/-- Takes the octets of a word one by one. -/
def word : Bytes → Scanner Unit
  | [] => pure ()
  | c :: rest => do
    match ← get with
    | [] => fail .truncated
    | c' :: after => if c = c' then do set after; word rest else fail .malformed

/-- The next octet after blank ones, of which there must be one. -/
def token : Scanner UInt8 := do
  blanks
  match ← peek with
  | none => fail .truncated
  | some c => pure c

/-! ## Numbers -/

/-- Whether an octet is a decimal digit. -/
def isDigit (c : UInt8) : Bool := 0x30 ≤ c && c ≤ 0x39

/-- Takes all digits off the front. -/
def digits : Scanner (List Nat) := do
  let s ← get
  let taken := s.takeWhile isDigit
  set (s.drop taken.length)
  return taken.map fun c => c.toNat - 0x30

/-- One more than the largest unsigned word. -/
def wordLimit : Nat := 18446744073709551616

/-- Appends digits to a number as long as it stays an unsigned word; the number and how many digits were left over. -/
def accumulate (n : Nat) : List Nat → Nat × Nat
  | [] => (n, 0)
  | d :: ds => if 10 * n + d < wordLimit then accumulate (10 * n + d) ds else (n, ds.length + 1)

/-- A power of ten as a machine number. -/
def powerOfTen (n : Nat) : Float := Float.ofScientific 1 false n

/-- `m * 10 ^ e` with one rounding for `m` and one for each factor. A result beyond the largest number is refused. -/
def decimal (negative : Bool) (m : Nat) (e : Int) : Scanner Number := do
  let f := (UInt64.ofNat m).toFloat
  let signed (f : Float) : Number := .float (.ofFloat (if negative then -f else f))
  if 0 ≤ e ∧ e ≤ 308 then
    let r := f * powerOfTen e.toNat
    if r.isInf then fail .malformed else pure (signed r)
  else if -308 ≤ e ∧ e < 0 then pure (signed (f / powerOfTen (-e).toNat))
  else if m = 0 then pure (signed f)
  else if 0 ≤ e then fail .malformed
  else if -616 ≤ e then pure (signed (f / powerOfTen 308 / powerOfTen (-e - 308).toNat))
  else pure (signed 0)

/-- The exponent of a number, after its letter. -/
def exponent (negative : Bool) (m : Nat) (e : Int) : Scanner Number := do
  let c ← peek
  if c = some 0x2B ∨ c = some 0x2D then advance
  match ← peek with
  | none => fail .truncated
  | some d =>
    if isDigit d then
      let n : Nat := (← digits).foldl (fun n d => 10 * n + d) 0
      if n < 2147483648 then decimal negative m (if c = some 0x2D then e - (n : Int) else e + (n : Int))
      else if m ≠ 0 ∧ c ≠ some 0x2D then fail .malformed
      else pure (.float (.ofFloat (if negative then -0.0 else 0.0)))
    else fail .malformed

/-- Whether an octet starts an exponent. -/
def isExponent (c : Option UInt8) : Bool := c == some 0x65 || c == some 0x45

/-- The fraction of a number, after its point. -/
def fraction (negative : Bool) (m : Nat) (e : Int) : Scanner Number := do
  let ds ← digits
  if ds.isEmpty then
    match ← peek with
    | none => fail .truncated
    | some _ => fail .malformed
  else
    let (m, left) := accumulate m ds
    let e := e - (ds.length - left : Nat)
    if isExponent (← peek) then do advance; exponent negative m e else decimal negative m e

/-- An integer that fits no word, as a floating point number. -/
def integerNumber (negative : Bool) (n : Nat) : Number :=
  if negative then
    if n = 0 ∨ 9223372036854775808 < n then .float (.ofFloat (-(UInt64.ofNat n).toFloat)) else .int (-n)
  else .int n

/-- A number, after its sign. -/
def magnitude (negative : Bool) : Scanner Number := do
  match ← digits with
  | [] =>
    match ← peek with
    | none => fail .truncated
    | some _ => fail .malformed
  | 0 :: _ :: _ => fail .malformed
  | ds =>
    let (m, left) := accumulate 0 ds
    let c ← peek
    if c = some 0x2E then do advance; fraction negative m left
    else if isExponent c then do advance; exponent negative m left
    else if left = 0 then pure (integerNumber negative m)
    else decimal negative m left

/-- A number whose first octet is known to be a minus sign or a digit. -/
def number : Scanner Number := do
  if (← peek) = some 0x2D then do advance; magnitude true else magnitude false

/-- Whether an octet starts a number. -/
def startsNumber (c : UInt8) : Bool := c == 0x2D || isDigit c

/-! ## Texts -/

/-- The number of four hexadecimal digits. -/
def fourHex : Scanner Nat := do
  match ← get with
  | a :: b :: c :: d :: rest =>
    set rest
    match Bytes.hexValue? a, Bytes.hexValue? b, Bytes.hexValue? c, Bytes.hexValue? d with
    | some a, some b, some c, some d => pure (((a * 16 + b) * 16 + c) * 16 + d)
    | _, _, _, _ => fail .malformed
  | _ => fail .truncated

/-- The second of two escaped surrogates. -/
def trailingSurrogate (high : Nat) : Scanner Nat := do
  word [0x5C, 0x75]
  let low ← fourHex
  if 0xDC00 ≤ low ∧ low ≤ 0xDFFF then pure ((high - 0xD800) * 1024 + (low - 0xDC00) + 0x10000)
  else fail .malformed

/-- The code point of an escape, after its letter. -/
def codePoint : Scanner Nat := do
  let n ← fourHex
  if 0xDC00 ≤ n ∧ n ≤ 0xDFFF then fail .malformed
  else if 0xD800 ≤ n ∧ n ≤ 0xDBFF then trailingSurrogate n
  else pure n

/-- The octet that a letter after a backslash stands for. -/
def unescape? (c : UInt8) : Option UInt8 :=
  if c = 0x22 ∨ c = 0x5C ∨ c = 0x2F then some c
  else if c = 0x62 then some 0x08
  else if c = 0x66 then some 0x0C
  else if c = 0x6E then some 0x0A
  else if c = 0x72 then some 0x0D
  else if c = 0x74 then some 0x09
  else none

/-- The octets of an escape, after the backslash. -/
def escape : Scanner Bytes := do
  match ← get with
  | [] => fail .truncated
  | c :: rest =>
    set rest
    if c = 0x75 then return Bytes.ofText (String.singleton (Char.ofNat (← codePoint)))
    else match unescape? c with
      | some c => pure [c]
      | none => fail .malformed

/-- An escape that is passed over, after the backslash. Its digits need not be a code point. -/
def skipEscape : Scanner Bytes := do
  match ← get with
  | [] => fail .truncated
  | c :: rest =>
    set rest
    if c = 0x75 then do let _ ← fourHex; pure []
    else if (unescape? c).isSome then pure []
    else fail .malformed

/-- The octets of a text up to its closing quote. The fuel is a bound on the octets that are left. -/
def quoted (escape : Scanner Bytes) : (fuel : Nat) → Scanner Bytes
  | 0 => fail .truncated
  | fuel + 1 => do
    match ← get with
    | [] => fail .truncated
    | c :: rest =>
      set rest
      if c = 0x22 then pure []
      else if c = 0x5C then do
        let head ← escape
        return head ++ (← quoted escape fuel)
      else if c < 0x20 then fail .malformed
      else return c :: (← quoted escape fuel)

/-- A text, after its opening quote. The octets must be UTF-8, which is looked at once the closing quote is found. -/
def text : Scanner String := do
  let octets ← quoted escape ((← get).length + 1)
  match Bytes.text? octets with
  | some s => pure s
  | none => fail .malformed

/-- Passes over a text, after its opening quote. -/
def skipText : Scanner Unit := do
  let _ ← quoted skipEscape ((← get).length + 1)

/-! ## Arrays and objects -/

/-- Whether there is another item, before the first one. -/
def firstItem : Scanner Bool := return (← token) != 0x5D

/-- Whether there is another item, after one; takes the comma. -/
def nextItem : Scanner Bool := do
  let c ← token
  if c = 0x5D then pure false
  else if c = 0x2C then do
    advance
    if (← token) = 0x5D then fail .malformed else pure true
  else fail .malformed

/-- Items up to the closing bracket, each after the question whether there is one. -/
def items {α : Type} (item : Scanner α) (more : Scanner Bool) : (fuel : Nat) → Scanner (List α)
  | 0 => fail .truncated
  | fuel + 1 => do
    if ← more then do
      let a ← item
      return a :: (← items item nextItem fuel)
    else do advance; pure []

/-- The items of an array, after its opening bracket. -/
def itemsOf {α : Type} (item : Scanner α) : Scanner (List α) := do
  items item firstItem ((← get).length + 1)

/-- Whether there is another member, before the first one; takes the quote of its name. -/
def firstName : Scanner Bool := do
  let c ← token
  if c = 0x7D then pure false
  else if c = 0x22 then do advance; pure true
  else fail .malformed

/-- Whether there is another member, after one; takes the comma and the quote of its name. -/
def nextName : Scanner Bool := do
  let c ← token
  if c = 0x7D then pure false
  else if c = 0x2C then do
    advance
    if (← token) = 0x22 then do advance; pure true else fail .malformed
  else fail .malformed

/-- The colon between the name of a member and its value. -/
def colon : Scanner Unit := do
  if (← token) = 0x3A then advance else fail .malformed

/-- Folds the members up to the closing brace into a state. What a member does to the state depends on its name. -/
def members {ν σ : Type} (name : Scanner ν) (member : ν → σ → Scanner σ) (more : Scanner Bool) :
    (fuel : Nat) → σ → Scanner σ
  | 0, _ => fail .truncated
  | fuel + 1, st => do
    if ← more then do
      let st ← member (← name) st
      members name member nextName fuel st
    else do advance; pure st

/-- Folds the members of an object, after its opening brace, into a state. -/
def membersOf {ν σ : Type} (name : Scanner ν) (member : ν → σ → Scanner σ) (start : σ) : Scanner σ := do
  members name member firstName ((← get).length + 1) start

/-! ## Values of any shape -/

/-- Takes a value of any shape, given how the rest of a number, a text, an array and an object is taken. The number's
first octet is still in place, the opening quote or bracket is not. -/
def dispatch {α : Type} (ofWord : Value → α) (number text array object : Scanner α) : Scanner α := do
  let c ← token
  if c = 0x6E then do advance; word [0x75, 0x6C, 0x6C]; pure (ofWord .null)
  else if c = 0x74 then do advance; word [0x72, 0x75, 0x65]; pure (ofWord (.bool true))
  else if c = 0x66 then do advance; word [0x61, 0x6C, 0x73, 0x65]; pure (ofWord (.bool false))
  else if startsNumber c then number
  else if c = 0x22 then do advance; text
  else if c = 0x5B then do advance; array
  else if c = 0x7B then do advance; object
  else fail .malformed

/-- Takes a value of any shape, given how the rest of an array and of an object is taken. -/
def valueWith (array object : Scanner Value) : Scanner Value :=
  dispatch id (return .number (← number)) (return .text (← text)) array object

/-- Takes a value of any shape with at most `depth` containers within one another. Of two members of one name the later
one is kept. -/
def value : (depth : Nat) → Scanner Value
  | 0 => valueWith (fail .malformed) (fail .malformed)
  | depth + 1 =>
    valueWith (return .array (← itemsOf (value depth)))
      (return .object (← membersOf text (fun name t => do colon; return t.insert name (← value depth))
        (Table.empty : Table String Value)).entries)

/-- Passes over digits, of which there must be one. -/
def skipDigits : Scanner Unit := do
  if (← digits).isEmpty then fail .malformed

/-- Passes over a number. One that is cut short is no JSON here. -/
def skipNumber : Scanner Unit := do
  if (← peek) = some 0x2D then advance
  match ← digits with
  | [] => fail .malformed
  | 0 :: _ :: _ => fail .malformed
  | _ =>
    if (← peek) = some 0x2E then do advance; skipDigits
    if isExponent (← peek) then do
      advance
      let c ← peek
      if c = some 0x2B ∨ c = some 0x2D then advance
      skipDigits

/-- Passes over a value of any shape, given how the rest of an array and of an object is passed over. -/
def skipWith (array object : Scanner Unit) : Scanner Unit := dispatch (fun _ => ()) skipNumber skipText array object

/-- Passes over a value of any shape. The fuel is a bound on the containers within one another. -/
def skip : (fuel : Nat) → Scanner Unit
  | 0 => skipWith (fail .malformed) (fail .malformed)
  | fuel + 1 =>
    skipWith (do let _ ← itemsOf (skip fuel)) (membersOf skipText (fun _ _ => do colon; skip fuel) ())

/-- Passes over a value of any shape, however deep it is. -/
def skipValue : Scanner Unit := do skip ((← get).length + 1)

end Scanner

end Gatehouse.Json
