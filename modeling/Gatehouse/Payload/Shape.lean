import Gatehouse.Payload.Sample
import Gatehouse.Token.Claims
import Gatehouse.Token.Record

/-!
# The shapes of payloads

The types of values that are stored in the cache, each under the name by which it is asked for.
-/

namespace Gatehouse

open Json

/-- A type of stored values. -/
inductive Shape where
  | unit
  | bool
  | u8
  | i32
  | i64
  | u64
  | f64
  | string
  | bytes
  | integers
  | strings
  | integerMap
  | boolListMap
  | optionalInteger
  | json
  | kind
  | account
  | profile
  | outer
  | claims
  | record
deriving DecidableEq

namespace Shape

/-- The values of a shape. -/
abbrev Carrier : Shape → Type
  | unit => Unit
  | bool => Bool
  | u8 => UInt8
  | i32 => Int32
  | i64 => Int64
  | u64 => UInt64
  | f64 => Binary64
  | string => String
  | bytes => Bytes
  | integers => List Int64
  | strings => List String
  | integerMap => Table String Int64
  | boolListMap => Table String (List Bool)
  | optionalInteger => Option Int64
  | json => Value
  | kind => TokenKind
  | account => AccountType
  | profile => Profile
  | outer => Outer
  | claims => TokenClaims
  | record => TokenRecord

/-- The names of the shapes. -/
def names : List (String × Shape) :=
  [("unit", unit), ("bool", bool), ("u8", u8), ("i32", i32), ("i64", i64), ("u64", u64), ("f64", f64),
    ("string", string), ("bytes", bytes), ("list_i64", integers), ("list_string", strings), ("map_i64", integerMap),
    ("map_list_bool", boolListMap), ("opt_i64", optionalInteger), ("json", json), ("kind", kind),
    ("account", account), ("profile", profile), ("outer", outer), ("claims", claims), ("record", record)]

/-- The shape of a name. -/
def ofName? (name : String) : Option Shape := names.lookup name

instance : (s : Shape) → ToJson s.Carrier
  | unit => inferInstanceAs (ToJson Unit)
  | bool => inferInstanceAs (ToJson Bool)
  | u8 => inferInstanceAs (ToJson UInt8)
  | i32 => inferInstanceAs (ToJson Int32)
  | i64 => inferInstanceAs (ToJson Int64)
  | u64 => inferInstanceAs (ToJson UInt64)
  | f64 => inferInstanceAs (ToJson Binary64)
  | string => inferInstanceAs (ToJson String)
  | bytes => inferInstanceAs (ToJson (List UInt8))
  | integers => inferInstanceAs (ToJson (List Int64))
  | strings => inferInstanceAs (ToJson (List String))
  | integerMap => inferInstanceAs (ToJson (Table String Int64))
  | boolListMap => inferInstanceAs (ToJson (Table String (List Bool)))
  | optionalInteger => inferInstanceAs (ToJson (Option Int64))
  | json => inferInstanceAs (ToJson Value)
  | kind => inferInstanceAs (ToJson TokenKind)
  | account => inferInstanceAs (ToJson AccountType)
  | profile => inferInstanceAs (ToJson Profile)
  | outer => inferInstanceAs (ToJson Outer)
  | claims => inferInstanceAs (ToJson TokenClaims)
  | record => inferInstanceAs (ToJson TokenRecord)

instance : (s : Shape) → FromJson s.Carrier
  | unit => inferInstanceAs (FromJson Unit)
  | bool => inferInstanceAs (FromJson Bool)
  | u8 => inferInstanceAs (FromJson UInt8)
  | i32 => inferInstanceAs (FromJson Int32)
  | i64 => inferInstanceAs (FromJson Int64)
  | u64 => inferInstanceAs (FromJson UInt64)
  | f64 => inferInstanceAs (FromJson Binary64)
  | string => inferInstanceAs (FromJson String)
  | bytes => inferInstanceAs (FromJson (List UInt8))
  | integers => inferInstanceAs (FromJson (List Int64))
  | strings => inferInstanceAs (FromJson (List String))
  | integerMap => inferInstanceAs (FromJson (Table String Int64))
  | boolListMap => inferInstanceAs (FromJson (Table String (List Bool)))
  | optionalInteger => inferInstanceAs (FromJson (Option Int64))
  | json => inferInstanceAs (FromJson Value)
  | kind => inferInstanceAs (FromJson TokenKind)
  | account => inferInstanceAs (FromJson AccountType)
  | profile => inferInstanceAs (FromJson Profile)
  | outer => inferInstanceAs (FromJson Outer)
  | claims => inferInstanceAs (FromJson TokenClaims)
  | record => inferInstanceAs (FromJson TokenRecord)

instance : (s : Shape) → Forms s.Carrier
  | integerMap => inferInstanceAs (Forms (Table String Int64))
  | boolListMap => inferInstanceAs (Forms (Table String (List Bool)))
  | claims => inferInstanceAs (Forms TokenClaims)
  | _ => inferInstance

end Shape

end Gatehouse
