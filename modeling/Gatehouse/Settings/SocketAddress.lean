import Gatehouse.Text.Digits

/-!
# Socket addresses

An address to listen on is four decimal octets and a port, or eight groups of sixteen bits in brackets and a port.
Groups are hexadecimal; a run of zero groups may be left out once, and the last two groups may be written as four
octets. A written address leaves out the first of its longest runs of two or more zero groups.
-/

namespace Gatehouse

/-- An address of four octets. -/
abbrev Ip4 := Vector UInt8 4

/-- An address of eight groups of sixteen bits. -/
abbrev Ip6 := Vector UInt16 8

/-- An address to listen on, with a port. -/
inductive SocketAddress where
  | v4 (ip : Ip4) (port : UInt16)
  /-- A scope of zero is not written. -/
  | v6 (ip : Ip6) (scope : UInt32) (port : UInt16)
deriving DecidableEq

namespace SocketAddress

/-! ## Reading -/

/-- Takes something from the start of a text, if it is there. -/
abbrev Reader := StateT (List Char) Option

/-- Takes a given character. -/
def given (c : Char) : Reader Unit
  | d :: rest => if d = c then some ((), rest) else none
  | [] => none

/-- Tries a reader, and takes nothing if it fails. -/
def attempt {α : Type} (read : Reader α) : Reader (Option α) := fun cs =>
  match read cs with
  | some (a, rest) => some (some a, rest)
  | none => some (none, cs)

/-- The value of a digit in a base up to sixteen. -/
def digitValue? (base : Nat) (c : Char) : Option Nat :=
  let value :=
    if '0' ≤ c ∧ c ≤ '9' then c.toNat - 0x30
    else if 'a' ≤ c ∧ c ≤ 'f' then c.toNat - 0x61 + 10
    else if 'A' ≤ c ∧ c ≤ 'F' then c.toNat - 0x41 + 10
    else base
  if value < base then some value else none

/-- What a number in an address may look like. -/
structure NumberForm where
  base : Nat
  maxDigits : Option Nat
  /-- Whether more digits may follow a zero at the start. -/
  leadingZero : Bool
  bound : Nat

/-- An octet. -/
def octetForm : NumberForm := ⟨10, some 3, false, 256⟩

/-- A group of sixteen bits. -/
def groupForm : NumberForm := ⟨16, some 4, true, 65536⟩

/-- A port. -/
def portForm : NumberForm := ⟨10, none, true, 65536⟩

/-- A scope. -/
def scopeForm : NumberForm := ⟨10, none, true, 4294967296⟩

/-- Takes all the digits that there are, as a number below the bound. -/
def number (form : NumberForm) : Reader Nat := fun cs =>
  let digits := (cs.takeWhile fun c => (digitValue? form.base c).isSome).filterMap (digitValue? form.base)
  let value := digits.foldl (fun n d => form.base * n + d) 0
  if digits.isEmpty then none
  else if form.maxDigits.any fun m => m < digits.length then none
  else if !form.leadingZero && digits.head? = some 0 && 1 < digits.length then none
  else if form.bound ≤ value then none
  else some (value, cs.drop digits.length)

/-- Takes a separator, unless this is the first item, and then an item. -/
def separated {α : Type} (separator : Char) (isFirst : Bool) (item : Reader α) : Reader α := do
  if !isFirst then given separator
  item

/-- Takes four octets with points between them. -/
def ip4 : Reader Ip4 := do
  let a ← number octetForm
  let b ← separated '.' false (number octetForm)
  let c ← separated '.' false (number octetForm)
  let d ← separated '.' false (number octetForm)
  return #v[UInt8.ofNat a, UInt8.ofNat b, UInt8.ofNat c, UInt8.ofNat d]

/-- The two groups of four octets. -/
def groupsOf (ip : Ip4) : List Nat := [256 * ip[0].toNat + ip[1].toNat, 256 * ip[2].toNat + ip[3].toNat]

/-- Takes groups as long as there is room for them, and tells whether the last two were written as four octets. -/
def groups : (room : Nat) → (isFirst : Bool) → Reader (List Nat × Bool)
  | 0, _ => return ([], false)
  | room + 1, isFirst => do
    let octets ← if room = 0 then pure none else attempt (separated ':' isFirst ip4)
    match octets with
    | some ip => return (groupsOf ip, true)
    | none =>
      match ← attempt (separated ':' isFirst (number groupForm)) with
      | none => return ([], false)
      | some g =>
        let (rest, octets) ← groups room false
        return (g :: rest, octets)

/-- The address of a list of groups. -/
def ofGroups (l : List Nat) : Ip6 := Vector.ofFn fun i => UInt16.ofNat (l.getD i.val 0)

/-- Takes eight groups, or fewer with two colons in place of at least one zero group. -/
def ip6 : Reader Ip6 := do
  let (head, octets) ← groups 8 true
  if head.length = 8 then return ofGroups head
  else if octets then failure
  else
    given ':'
    given ':'
    let (tail, _) ← groups (7 - head.length) true
    return ofGroups (head ++ List.replicate (8 - head.length - tail.length) 0 ++ tail)

/-- Takes a colon and a port. -/
def port : Reader UInt16 := do
  given ':'
  return UInt16.ofNat (← number portForm)

/-- Takes a scope after a percent sign. -/
def scope : Reader UInt32 := do
  given '%'
  return UInt32.ofNat (← number scopeForm)

/-- Takes an address with a port. -/
def address : Reader SocketAddress := do
  match ← attempt (do return SocketAddress.v4 (← ip4) (← port)) with
  | some a => return a
  | none =>
    given '['
    let ip ← ip6
    let scope ← attempt scope
    given ']'
    return .v6 ip (scope.getD 0) (← port)

/-- The address that a text stands for. -/
def parse? (text : String) : Option SocketAddress :=
  match address text.toList with
  | some (a, []) => some a
  | _ => none

/-! ## Writing -/

/-- The text of four octets. -/
def ip4Text (ip : Ip4) : String := String.intercalate "." (ip.toList.map fun x => Digits.natText x.toNat)

/-- The text of a group. -/
def groupText (g : UInt16) : String := String.ofList (Nat.toDigits 16 g.toNat)

/-- A run of zero groups. -/
structure Run where
  start : Nat
  length : Nat

/-- The first of the longest runs of zero groups from a place on, given the run that ends there and the longest one so
far. -/
def longestZeros : List UInt16 → (place : Nat) → (current longest : Run) → Run
  | [], _, _, longest => longest
  | g :: rest, place, current, longest =>
    if g = 0 then
      let current := if current.length = 0 then ⟨place, 1⟩ else { current with length := current.length + 1 }
      longestZeros rest (place + 1) current (if longest.length < current.length then current else longest)
    else longestZeros rest (place + 1) ⟨0, 0⟩ longest

/-- The texts of groups with colons between them. -/
def groupsText (l : List UInt16) : String := String.intercalate ":" (l.map groupText)

/-- The text of eight groups. Groups that hold an address of four octets show it. -/
def ip6Text (ip : Ip6) : String :=
  if ip.toList.take 6 = [0, 0, 0, 0, 0, 0xFFFF] then
    let octets (g : UInt16) : List UInt8 := [(g >>> 8).toUInt8, g.toUInt8]
    "::ffff:" ++ String.intercalate "." ((octets ip[6] ++ octets ip[7]).map fun x => Digits.natText x.toNat)
  else
    let zeros := longestZeros ip.toList 0 ⟨0, 0⟩ ⟨0, 0⟩
    if 1 < zeros.length then
      groupsText (ip.toList.take zeros.start) ++ "::" ++ groupsText (ip.toList.drop (zeros.start + zeros.length))
    else groupsText ip.toList

/-- The text of an address with its port. -/
def text : SocketAddress → String
  | v4 ip port => ip4Text ip ++ ":" ++ Digits.natText port.toNat
  | v6 ip scope port =>
    "[" ++ ip6Text ip ++ (if scope = 0 then "" else "%" ++ Digits.natText scope.toNat) ++ "]:" ++
      Digits.natText port.toNat

end SocketAddress

end Gatehouse
