import Gatehouse.Text.Bytes

/-!
# Patterns of keys

The server finds keys by pattern: a star stands for any octets, a question mark for one octet, brackets for one octet
out of a class, and a backslash takes the octet after it as it is. A text is made into the pattern of the keys that
start with it by putting a backslash before every octet with a meaning.
-/

namespace Gatehouse

/-- What a class of octets admits. -/
inductive ClassItem where
  | one (c : UInt8)
  /-- The octets between two bounds, which may come in either order. -/
  | span (a b : UInt8)
deriving DecidableEq

/-- Whether an item of a class admits an octet. -/
def ClassItem.admits : ClassItem → UInt8 → Bool
  | .one a, c => c == a
  | .span a b, c => (a ≤ c && c ≤ b) || (b ≤ c && c ≤ a)

/-- A part of a pattern. -/
inductive GlobPart where
  /-- Any number of octets. -/
  | anyRun
  /-- One octet. -/
  | anyOne
  /-- One octet that a class admits, or that it does not admit. -/
  | oneOf (negated : Bool) (items : List ClassItem)
  /-- This octet. -/
  | octet (c : UInt8)
deriving DecidableEq

namespace GlobPart

/-- Whether a part that stands for one octet admits it. -/
def admits : GlobPart → UInt8 → Bool
  | anyRun, _ => false
  | anyOne, _ => true
  | oneOf negated items, c => (items.any fun i => i.admits c) != negated
  | octet a, c => c == a

end GlobPart

/-- A pattern of keys. -/
abbrev Glob := List GlobPart

namespace Glob

/-! ## Reading patterns -/

/-- Where reading a pattern stands. Inside brackets the items read so far are kept in reverse. -/
inductive Context where
  | outside
  /-- After a backslash. -/
  | quoted
  /-- After the bracket that opens a class. -/
  | opened
  | inside (negated : Bool) (items : List ClassItem)
  /-- After a backslash in a class. -/
  | insideQuoted (negated : Bool) (items : List ClassItem)
  /-- After an octet in a class that may be the start of a span. -/
  | pending (negated : Bool) (items : List ClassItem) (first : UInt8)
  /-- After an octet and a dash in a class. -/
  | dashed (negated : Bool) (items : List ClassItem) (first : UInt8)

/-- Reads an octet of a class after a number of items. -/
def classStep (negated : Bool) (items : List ClassItem) (c : UInt8) : Context × Glob :=
  if c = 0x5D then (.outside, [.oneOf negated items.reverse])
  else if c = 0x5C then (.insideQuoted negated items, [])
  else (.pending negated items c, [])

/-- Reads an octet of a pattern. -/
def step : Context → UInt8 → Context × Glob
  | .outside, c =>
    if c = 0x2A then (.outside, [.anyRun])
    else if c = 0x3F then (.outside, [.anyOne])
    else if c = 0x5B then (.opened, [])
    else if c = 0x5C then (.quoted, [])
    else (.outside, [.octet c])
  | .quoted, c => (.outside, [.octet c])
  | .opened, c => if c = 0x5E then (.inside true [], []) else classStep false [] c
  | .inside negated items, c => classStep negated items c
  | .insideQuoted negated items, c => (.inside negated (.one c :: items), [])
  | .pending negated items a, c =>
    if c = 0x2D then (.dashed negated items a, []) else classStep negated (.one a :: items) c
  | .dashed negated items a, c => (.inside negated (.span a c :: items), [])

/-- What the end of the pattern makes of what was read last. A class that is not closed ends here, and a last backslash
stands for itself. -/
def finish : Context → Glob
  | .outside => []
  | .quoted => [.octet 0x5C]
  | .opened => [.oneOf false []]
  | .inside negated items => [.oneOf negated items.reverse]
  | .insideQuoted negated items => [.oneOf negated (.one 0x5C :: items).reverse]
  | .pending negated items a => [.oneOf negated (.one a :: items).reverse]
  | .dashed negated items a => [.oneOf negated (.one 0x2D :: .one a :: items).reverse]

/-- Reads the octets of a pattern from where reading stands. -/
def parseFrom (context : Context) : Bytes → Glob
  | [] => finish context
  | c :: rest => (step context c).2 ++ parseFrom (step context c).1 rest

/-- The pattern of its octets. -/
def parse (b : Bytes) : Glob := parseFrom .outside b

/-! ## Matching -/

/-- The ends of octets, from all of them to none. -/
def ends : Bytes → List Bytes
  | [] => [[]]
  | c :: rest => (c :: rest) :: ends rest

/-- Whether a pattern admits octets. -/
def admits : Glob → Bytes → Bool
  | [], b => b.isEmpty
  | .anyRun :: g, b => (ends b).any fun rest => admits g rest
  | _ :: _, [] => false
  | p :: g, c :: b => p.admits c && admits g b

/-! ## Patterns of texts -/

/-- Whether an octet has a meaning in patterns. -/
def isSpecial (c : UInt8) : Bool := c == 0x2A || c == 0x3F || c == 0x5B || c == 0x5D || c == 0x5C

/-- A text written so that it stands for itself. -/
def escape (b : Bytes) : Bytes := b.flatMap fun c => if isSpecial c then [0x5C, c] else [c]

/-- The octets of the pattern of the keys that start with a text. -/
def startingWith (stem : Bytes) : Bytes := escape stem ++ [0x2A]

end Glob

end Gatehouse
