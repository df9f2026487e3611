import Gatehouse.Json.Scanner
import Gatehouse.Json.Writer

/-!
# Types with a JSON form

A type has a JSON form if its values are turned into JSON values and a scanner reads them back. `encode` and `decode`
are what the cache stores and what it reads; everything else is how the form of a type is put together from the forms
of its parts.

A hash map lists its members in an order that nobody knows beforehand. `toJson` lists them by ascending name, and
`HasForm` says what else may be written.
-/

namespace Gatehouse.Json

/-- Types whose values are written as JSON. -/
class ToJson (α : Type) where
  toJson : α → Value

/-- Types whose values are read from JSON. -/
class FromJson (α : Type) where
  scan : Scanner α

export ToJson (toJson)

/-- What the values of a type may be written as. The only choice is the order in which a map lists its members, and the
form that is given is one of those that may be written. -/
class Forms (α : Type) [ToJson α] where
  HasForm : α → Value → Prop
  hasForm_toJson : ∀ a, HasForm a (toJson a)

export Forms (HasForm hasForm_toJson)

/-- The stored form of a value. -/
def encode {α : Type} [ToJson α] (a : α) : Bytes := write (toJson a)

/-- Runs a scanner on all of the octets; after the value only blank octets may follow. -/
def decodeWith {α : Type} (scan : Scanner α) (b : Bytes) : Except DecodeError α := do
  let (a, rest) ← scan b
  if (rest.dropWhile Scanner.isSpace).isEmpty then return a else throw .malformed

/-- Reads a value from its stored form. -/
def decode {α : Type} [FromJson α] (b : Bytes) : Except DecodeError α := decodeWith FromJson.scan b

namespace Scanner

/-- Fails on a value of another shape than the one wanted. A word, a number or a text is read to its end first, so that
octets which end too soon or are no JSON are told apart from it. -/
def unexpected {α : Type} : Scanner α := do
  dispatch (fun _ => ()) (do let _ ← number) (do let _ ← text) (fail .mismatch) (fail .mismatch)
  fail .mismatch

/-- Takes `null`. -/
def null : Scanner Unit := do
  if (← token) = 0x6E then do advance; word [0x75, 0x6C, 0x6C] else unexpected

/-- Takes a truth value. -/
def bool : Scanner Bool := do
  let c ← token
  if c = 0x74 then do advance; word [0x72, 0x75, 0x65]; pure true
  else if c = 0x66 then do advance; word [0x61, 0x6C, 0x73, 0x65]; pure false
  else unexpected

/-- Takes a number. -/
def anyNumber : Scanner Number := do
  if startsNumber (← token) then number else unexpected

/-- Takes an integer between two bounds. -/
def integer (low high : Int) : Scanner Int := do
  match ← anyNumber with
  | .int n => if low ≤ n ∧ n ≤ high then pure n else fail .mismatch
  | .float _ => fail .mismatch

/-- The machine number nearest to an integer. -/
def nearestFloat (n : Int) : Float :=
  if n < 0 then -(UInt64.ofNat n.natAbs).toFloat else (UInt64.ofNat n.toNat).toFloat

/-- Takes a floating point number. -/
def float : Scanner Binary64 := do
  match ← anyNumber with
  | .int n => pure (.ofFloat (nearestFloat n))
  | .float x => pure x

/-- Takes a text. -/
def string : Scanner String := do
  if (← token) = 0x22 then do advance; text else unexpected

/-- Takes an array of items of one type. -/
def list {α : Type} (item : Scanner α) : Scanner (List α) := do
  if (← token) = 0x5B then do advance; itemsOf item else unexpected

/-- Takes an object whose members are of one type. Of two members of one name the later one is kept. -/
def table {α : Type} (item : Scanner α) : Scanner (Table String α) := do
  if (← token) = 0x7B then do
    advance
    membersOf text (fun name t => do colon; return t.insert name (← item)) Table.empty
  else unexpected

/-- Takes `null` or a value. -/
def option {α : Type} (item : Scanner α) : Scanner (Option α) := do
  blanks
  if (← peek) = some 0x6E then do advance; word [0x75, 0x6C, 0x6C]; pure none
  else return some (← item)

/-- The value that a name stands for. -/
def named {α : Type} (names : List (String × α)) : Scanner α := do
  match names.lookup (← text) with
  | some a => pure a
  | none => fail .mismatch

/-- Takes one of several named values: its name as a text, or an object whose only member has that name and is `null`.
-/
def choice {α : Type} (names : List (String × α)) : Scanner α := do
  let c ← token
  if c = 0x22 then do advance; named names
  else if c = 0x7B then do
    advance
    if (← token) = 0x22 then
      advance
      let a ← named names
      colon
      null
      if (← token) = 0x7D then do advance; pure a else fail .malformed
    else unexpected
  else fail .malformed

/-! ## Records

A record is read from an object by the names of its members, or from an array by their places. While an object is
read, its members so far are kept in a draft. -/

/-- What a member does to the draft of a record. -/
inductive Member (σ : Type) where
  /-- No field has this name: the value is passed over. -/
  | unknown
  /-- The field has been read already. -/
  | repeated
  /-- The value is read into the draft. -/
  | known (read : Scanner σ)

/-- A field: read it if the draft does not have it yet. -/
def field {α σ : Type} (current : Option α) (item : Scanner α) (store : α → σ) : Member σ :=
  if current.isSome then .repeated else .known (return store (← item))

/-- Reads a member into the draft of a record. -/
def memberInto {σ : Type} (fields : String → σ → Member σ) (name : String) (draft : σ) : Scanner σ :=
  match fields name draft with
  | .unknown => do colon; skipValue; pure draft
  | .repeated => fail .mismatch
  | .known read => do colon; read

/-- Completes a draft; fails if a field is missing. -/
def complete {α : Type} : Option α → Scanner α
  | some a => pure a
  | none => fail .mismatch

/-- The field at the first place of an array. -/
def firstPlace {α : Type} (item : Scanner α) : Scanner α := do
  if ← firstItem then item else fail .mismatch

/-- The field at a later place of an array. -/
def nextPlace {α : Type} (item : Scanner α) : Scanner α := do
  if ← nextItem then item else fail .mismatch

/-- The end of an array after the last field. -/
def closing : Scanner Unit := do
  if (← token) = 0x5D then advance else fail .malformed

/-- Takes a record. -/
def record {α σ : Type} (start : σ) (fields : String → σ → Member σ) (finish : σ → Option α) (places : Scanner α) :
    Scanner α := do
  let c ← token
  if c = 0x7B then do
    advance
    complete (finish (← membersOf text (memberInto fields) start))
  else if c = 0x5B then do
    advance
    let a ← places
    closing
    pure a
  else unexpected

end Scanner

/-! ## The forms of the basic types -/

instance : ToJson Unit := ⟨fun _ => .null⟩
instance : FromJson Unit := ⟨Scanner.null⟩

instance : ToJson Bool := ⟨.bool⟩
instance : FromJson Bool := ⟨Scanner.bool⟩

instance : ToJson UInt8 := ⟨fun n => .int n.toNat⟩
instance : FromJson UInt8 := ⟨return UInt8.ofNat (← Scanner.integer 0 255).toNat⟩

instance : ToJson Int32 := ⟨fun n => .int n.toInt⟩
instance : FromJson Int32 := ⟨return Int32.ofInt (← Scanner.integer (-2147483648) 2147483647)⟩

instance : ToJson Int64 := ⟨fun n => .int n.toInt⟩
instance : FromJson Int64 :=
  ⟨return Int64.ofInt (← Scanner.integer (-9223372036854775808) 9223372036854775807)⟩

instance : ToJson UInt64 := ⟨fun n => .int n.toNat⟩
instance : FromJson UInt64 := ⟨return UInt64.ofNat (← Scanner.integer 0 18446744073709551615).toNat⟩

/-- A number that is not finite has no JSON form and is written as `null`. -/
instance : ToJson Binary64 := ⟨fun x => if x.exponentField = 2047 then .null else .number (.float x)⟩
instance : FromJson Binary64 := ⟨Scanner.float⟩

instance : ToJson String := ⟨.text⟩
instance : FromJson String := ⟨Scanner.string⟩

instance {α : Type} [ToJson α] : ToJson (List α) := ⟨fun l => .array (l.map toJson)⟩
instance {α : Type} [FromJson α] : FromJson (List α) := ⟨Scanner.list FromJson.scan⟩

/-- The members are listed by ascending name, as an ordered map does and a hash map may do. -/
instance {α : Type} [ToJson α] : ToJson (Table String α) := ⟨fun t => .object (t.map toJson).entries⟩
instance {α : Type} [FromJson α] : FromJson (Table String α) := ⟨Scanner.table FromJson.scan⟩

instance {α : Type} [ToJson α] : ToJson (Option α) := ⟨fun a => (a.map toJson).getD .null⟩
instance {α : Type} [FromJson α] : FromJson (Option α) := ⟨Scanner.option FromJson.scan⟩

/-- The most containers within one another that are read. -/
def depthLimit : Nat := 127

instance : ToJson Value := ⟨id⟩
instance : FromJson Value := ⟨Scanner.value depthLimit⟩

/-! ## All forms of a value -/

/-- A value without hash maps is written in one way. -/
instance (priority := low) {α : Type} [ToJson α] : Forms α where
  HasForm a w := w = toJson a
  hasForm_toJson _ := rfl

section Containers

variable {α : Type} [ToJson α] [Forms α]

/-- Each item is written in one of its forms. -/
instance : Forms (List α) where
  HasForm l w := ∃ items : List (α × Value), items.map Prod.fst = l ∧ w = .array (items.map Prod.snd) ∧
    ∀ i ∈ items, HasForm i.1 i.2
  hasForm_toJson l := by
    refine ⟨l.map fun a => (a, toJson a), ?_, ?_, List.forall_mem_map.mpr fun a _ => hasForm_toJson a⟩
    · rw [List.map_map]
      exact List.map_id l
    · rw [List.map_map]
      rfl

/-- The members come in any order, each with one of the forms of its value. -/
instance : Forms (Table String α) where
  HasForm t w := ∃ members : List (String × α × Value), (members.map fun m => (m.1, m.2.1)).Perm t.entries ∧
    w = .object (members.map fun m => (m.1, m.2.2)) ∧ ∀ m ∈ members, HasForm m.2.1 m.2.2
  hasForm_toJson t := by
    refine ⟨t.entries.map fun e => (e.1, e.2, toJson e.2), ?_, ?_,
      List.forall_mem_map.mpr fun e _ => hasForm_toJson e.2⟩
    · rw [List.map_map]
      exact .of_eq (List.map_id t.entries)
    · rw [List.map_map]
      rfl

/-- What is there is written as itself. -/
instance : Forms (Option α) where
  HasForm
    | none, w => w = .null
    | some a, w => HasForm a w
  hasForm_toJson
    | none => rfl
    | some a => hasForm_toJson a

end Containers

end Gatehouse.Json
