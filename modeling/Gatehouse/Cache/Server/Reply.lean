import Gatehouse.Text.Bytes
import Gatehouse.Text.Digits

/-!
# Replies of the server

A reply is one line that starts with a sign of its kind; texts and arrays are followed by what the line announces. The
server may also refuse a command, or not answer at all.
-/

namespace Gatehouse

/-- A reply to a command. -/
inductive Reply where
  | nil
  | int (n : Int)
  | data (b : Bytes)
  | array (items : List Reply)
  | okay
  | status (b : Bytes)

/-- What comes back for a command. -/
inductive Response where
  | reply (r : Reply)
  /-- The server refuses the command, or answers in no form that is understood. -/
  | refusal
  /-- Nothing comes back. -/
  | silence

namespace Reply

/-- Whether an integer fits a signed word of 64 bits. -/
def isWord (n : Int) : Bool := -9223372036854775808 ≤ n && n ≤ 9223372036854775807

/-- The integer of a text: digits, with at most one sign before them. -/
def int? (b : Bytes) : Option Int :=
  let digits (b : Bytes) : Option Nat :=
    if b.isEmpty then none
    else b.foldlM (fun n c => (Digits.value? (Char.ofNat c.toNat)).map fun d => 10 * n + d) 0
  match b with
  | 0x2B :: rest => (digits rest).map Int.ofNat
  | 0x2D :: rest => (digits rest).map fun n => -Int.ofNat n
  | _ => (digits b).map Int.ofNat

/-! ## Reading replies -/

/-- Why no reply was read. -/
inductive Fault where
  /-- The octets end before the reply does. -/
  | unfinished
  /-- The server refuses, or the octets are no reply. -/
  | refused

/-- Splits the first line, which ends in a carriage return and a line feed, from what follows it. -/
def line : Bytes → Except Fault (Bytes × Bytes)
  | 0x0D :: 0x0A :: rest => .ok ([], rest)
  | [] => .error .unfinished
  | c :: rest => do
    let (l, rest) ← line rest
    return (c :: l, rest)

/-- The integer of a line. -/
def word (b : Bytes) : Except Fault Int :=
  match (int? b).filter isWord with
  | some n => .ok n
  | none => .error .refused

/-- Takes the octets of a text and the end of its line. -/
def block (length : Nat) (b : Bytes) : Except Fault (Bytes × Bytes) :=
  match b.drop length with
  | 0x0D :: 0x0A :: rest => .ok (b.take length, rest)
  | [] => .error .unfinished
  | [0x0D] => .error .unfinished
  | _ => .error .refused

/-- Runs a reader a number of times. -/
def repeated {α : Type} (read : Bytes → Except Fault (α × Bytes)) : Nat → Bytes → Except Fault (List α × Bytes)
  | 0, b => .ok ([], b)
  | n + 1, b => do
    let (a, b) ← read b
    let (l, b) ← repeated read n b
    return (a :: l, b)

/-- Reads a reply. The fuel is a bound on how deep arrays lie within one another. -/
def ofBytes : (fuel : Nat) → Bytes → Except Fault (Reply × Bytes)
  | 0, _ => .error .refused
  | _, [] => .error .unfinished
  | fuel + 1, kind :: b => do
    let (l, rest) ← line b
    if kind = 0x2B then return (if l = [0x4F, 0x4B] then okay else status l, rest)
    else if kind = 0x3A then return (int (← word l), rest)
    else if kind = 0x24 then
      let n ← word l
      if n < 0 then return (nil, rest)
      else
        let (b, rest) ← block n.toNat rest
        return (data b, rest)
    else if kind = 0x2A then
      let n ← word l
      if n < 0 then return (nil, rest)
      else
        let (items, rest) ← repeated (ofBytes fuel) n.toNat rest
        return (array items, rest)
    else throw .refused

end Reply

/-- What octets sent in answer to a command amount to. -/
def Response.ofBytes (b : Bytes) : Response :=
  match Reply.ofBytes (b.length + 1) b with
  | .ok (r, _) => .reply r
  | .error .refused => .refusal
  | .error .unfinished => .silence

end Gatehouse
