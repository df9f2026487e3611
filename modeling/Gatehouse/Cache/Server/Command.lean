import Gatehouse.Text.Bytes
import Gatehouse.Text.Digits

/-!
# Commands to the server

The commands that the client sends. A command goes over the wire as a list of words, of which the first is its name.
-/

namespace Gatehouse

/-- A command to the server. -/
inductive Command where
  /-- Says who is connecting. -/
  | auth (user : Option String) (password : String)
  /-- Chooses one of the numbered key spaces. -/
  | select (space : Int)
  /-- Whether a key is there. -/
  | holds (key : String)
  /-- The value of a key. -/
  | get (key : String)
  /-- Sets a value, to live for a number of milliseconds or for ever. -/
  | set (key : String) (value : Bytes) (millis : Option Nat)
  /-- Removes a key. -/
  | del (key : String)
  /-- The milliseconds that a key still has. -/
  | pttl (key : String)
  /-- One page of the keys that a pattern admits. -/
  | scan (cursor : Nat) (pattern : Bytes) (count : Nat)
  /-- Removes every key. -/
  | flush
deriving DecidableEq

namespace Command

/-- The name of a command. -/
def name : Command → String
  | auth _ _ => "AUTH"
  | select _ => "SELECT"
  | holds _ => "EXISTS"
  | get _ => "GET"
  | set _ _ _ => "SET"
  | del _ => "DEL"
  | pttl _ => "PTTL"
  | scan _ _ _ => "SCAN"
  | flush => "FLUSHDB"

/-- The words of a command after its name. -/
def arguments : Command → List Bytes
  | auth user password => (user.map Bytes.ofText).toList ++ [Bytes.ofText password]
  | select space => [Bytes.ofText (Digits.intText space)]
  | holds key => [Bytes.ofText key]
  | get key => [Bytes.ofText key]
  | set key value none => [Bytes.ofText key, value]
  | set key value (some millis) => [Bytes.ofText key, value, Bytes.ofText "PX", Bytes.ofText (Digits.natText millis)]
  | del key => [Bytes.ofText key]
  | pttl key => [Bytes.ofText key]
  | scan cursor pattern count =>
    [Bytes.ofText (Digits.natText cursor), Bytes.ofText "MATCH", pattern, Bytes.ofText "COUNT",
      Bytes.ofText (Digits.natText count)]
  | flush => []

/-- The words of a command. -/
def words (c : Command) : List Bytes := Bytes.ofText c.name :: c.arguments

end Command

end Gatehouse
