import Gatehouse.Json.Encoding
import Gatehouse.Payload.Shape
import Gatehouse.Proofs.Token.Codec

/-!
# Stored values come back

Every value of a shape without floating point numbers is read back as it was stored, and so is every list, table and
option of such values: the scanner of a type takes what its values are written as, part by part.
-/

namespace Gatehouse

open Json Scanner

/-! ## Sample records -/

theorem Profile.readsBack (p : Profile) : ReadsBack p := by
  have htags : ReadsBack p.tags := readsBack_list fun s _ => readsBack_string s
  have hmanager : ReadsBack p.manager := readsBack_option fun s _ => ⟨readsBack_string s, nofun⟩
  refine takes_record (?_ : Folds (memberInto fields) _ {} ⟨some p.name, some p.tags, some p.manager⟩) rfl
  refine .field rfl (readsBack_string p.name) ?_
  refine .field rfl htags ?_
  refine .field rfl hmanager ?_
  exact .nil _

/-- A nested record without a score is read back. -/
theorem Inner.readsBack {i : Inner} (h : i.score = none) : ReadsBack i := by
  obtain ⟨label, score⟩ := i
  obtain rfl : score = none := h
  have hscore : ReadsBack (none : Option Binary64) := readsBack_option fun x hx => absurd hx (Option.not_mem_none x)
  refine takes_record (?_ : Folds (memberInto fields) _ {} ⟨some label, some none⟩) rfl
  refine .field rfl (readsBack_string label) ?_
  refine .field rfl hscore ?_
  exact .nil _

theorem Outer.readsBack {o : Outer} (h : ∀ i ∈ o.inner, i.score = none) : ReadsBack o := by
  have htags : ReadsBack o.tags := readsBack_list fun s _ => readsBack_string s
  have hinner : ReadsBack o.inner := readsBack_option fun i hi => ⟨Inner.readsBack (h i hi), nofun⟩
  have hattributes : ReadsBack o.attributes := readsBack_table fun e _ => readsBack_int32 e.2
  refine takes_record
    (?_ : Folds (memberInto fields) _ {} ⟨some o.id, some o.tags, some o.inner, some o.attributes⟩) rfl
  refine .field rfl (readsBack_uint64 o.id) ?_
  refine .field rfl htags ?_
  refine .field rfl hinner ?_
  refine .field rfl hattributes ?_
  exact .nil _

/-! ## Shapes -/

namespace Shape

/-- The values of a shape that hold no floating point number and can be told from their written form. -/
def Regular : (s : Shape) → s.Carrier → Prop
  | f64, _ => False
  | json, v => Value.Plain v
  | outer, o => ∀ i ∈ Outer.inner o, i.score = none
  | claims, c => TokenClaims.Regular c
  | record, r => TokenRecord.Regular r
  | _, _ => True

theorem comesBack (s : Shape) {v : s.Carrier} (h : s.Regular v) : ComesBack v := by
  cases s with
  | unit => exact (readsBack_unit v).comesBack
  | bool => exact (readsBack_bool v).comesBack
  | u8 => exact (readsBack_uint8 v).comesBack
  | i32 => exact (readsBack_int32 v).comesBack
  | i64 => exact (readsBack_int64 v).comesBack
  | u64 => exact (readsBack_uint64 v).comesBack
  | f64 => exact absurd h id
  | string => exact (readsBack_string v).comesBack
  | bytes => exact (readsBack_list fun n _ => readsBack_uint8 n).comesBack
  | integers => exact (readsBack_list fun n _ => readsBack_int64 n).comesBack
  | strings => exact (readsBack_list fun s _ => readsBack_string s).comesBack
  | integerMap => exact comesBack_table fun e _ => (readsBack_int64 e.2).comesBack
  | boolListMap => exact comesBack_table fun e _ => comesBack_list fun b _ => (readsBack_bool b).comesBack
  | optionalInteger => exact (readsBack_option fun n _ => ⟨readsBack_int64 n, nofun⟩).comesBack
  | json =>
    rintro _ rfl hdepth
    exact takes_value h hdepth
  | kind => exact (TokenKind.readsBack v).comesBack
  | account => exact (AccountType.readsBack v).comesBack
  | profile => exact (Profile.readsBack v).comesBack
  | outer => exact (Outer.readsBack h).comesBack
  | claims => exact TokenClaims.comesBack h
  | record => exact (TokenRecord.readsBack h).comesBack

/-- Whether `null` is a form of some value of a shape. -/
def isNullable : Shape → Bool
  | unit | f64 | optionalInteger | json => true
  | _ => false

theorem ne_null_of_form {s : Shape} (hs : s.isNullable = false) {v : s.Carrier} {w : Value} (hform : HasForm v w) :
    w ≠ .null := by
  cases s with
  | unit | f64 | optionalInteger | json => cases hs
  | integerMap | boolListMap =>
    obtain ⟨_, -, rfl, -⟩ := hform
    exact nofun
  | claims =>
    obtain ⟨_, -, rfl⟩ := hform
    exact nofun
  | _ =>
    cases hform
    exact nofun

end Shape

/-! ## Stored values -/

/-- A type of stored values: a shape, or a list, a table or an option of stored values. -/
inductive Composite where
  | shape (s : Shape)
  | list (c : Composite)
  | table (c : Composite)
  | option (c : Composite)

namespace Composite

/-- The values of a type. -/
abbrev Carrier : Composite → Type
  | shape s => s.Carrier
  | list c => List c.Carrier
  | table c => Table String c.Carrier
  | option c => Option c.Carrier

/-- How the values of a type are written. -/
instance written : (c : Composite) → ToJson c.Carrier
  | shape s => inferInstanceAs (ToJson s.Carrier)
  | list c => have := c.written; inferInstanceAs (ToJson (List c.Carrier))
  | table c => have := c.written; inferInstanceAs (ToJson (Table String c.Carrier))
  | option c => have := c.written; inferInstanceAs (ToJson (Option c.Carrier))

/-- What the values of a type may be written as. -/
instance forms : (c : Composite) → Forms c.Carrier
  | shape s => inferInstanceAs (Forms s.Carrier)
  | list c => have := c.forms; inferInstanceAs (Forms (List c.Carrier))
  | table c => have := c.forms; inferInstanceAs (Forms (Table String c.Carrier))
  | option c => have := c.forms; inferInstanceAs (Forms (Option c.Carrier))

/-- How the values of a type are read. -/
instance read : (c : Composite) → FromJson c.Carrier
  | shape s => inferInstanceAs (FromJson s.Carrier)
  | list c => have := c.read; inferInstanceAs (FromJson (List c.Carrier))
  | table c => have := c.read; inferInstanceAs (FromJson (Table String c.Carrier))
  | option c => have := c.read; inferInstanceAs (FromJson (Option c.Carrier))

/-- All values of shapes within a value are as they should be. -/
def Every (P : (s : Shape) → s.Carrier → Prop) : (c : Composite) → c.Carrier → Prop
  | shape s, v => P s v
  | list c, l => ∀ v ∈ l, c.Every P v
  | table c, t => ∀ e ∈ t.entries, c.Every P e.2
  | option c, o => ∀ v ∈ o, c.Every P v

/-- Whether `null` is a form of some value of a type. -/
def isNullable : Composite → Bool
  | shape s => s.isNullable
  | list _ | table _ => false
  | option _ => true

theorem ne_null_of_form {c : Composite} (hc : c.isNullable = false) {v : c.Carrier} {w : Value}
    (hform : HasForm v w) : w ≠ .null := by
  cases c with
  | shape s => exact Shape.ne_null_of_form hc hform
  | list c =>
    obtain ⟨_, -, rfl, -⟩ := hform
    exact nofun
  | table c =>
    obtain ⟨_, -, rfl, -⟩ := hform
    exact nofun
  | option c => cases hc

/-- Every option is of a type whose values are never written as `null`. -/
def IsTold : Composite → Prop
  | shape _ => True
  | list c | table c => c.IsTold
  | option c => c.IsTold ∧ c.isNullable = false

theorem comesBack {c : Composite} (hc : c.IsTold) {v : c.Carrier} (h : c.Every Shape.Regular v) : ComesBack v := by
  induction c with
  | shape s => exact s.comesBack h
  | list c ih => exact comesBack_list fun a ha => ih hc (h a ha)
  | table c ih => exact comesBack_table fun e he => ih hc (h e he)
  | option c ih => exact comesBack_option fun a ha => ⟨ih hc.1 (h a ha), fun _ => ne_null_of_form hc.2⟩

end Composite

/-- A type of the codec: a shape, or a list, a table or an option of its types. An option has no form of its own, but is
written as the value that is there or else as `null`; so there is none of a type with `null` among its forms, where two
values would have one form. What the program itself may leave out is an integer, a text, an instant or a record. -/
structure CodecType where
  type : Composite
  told : type.IsTold

/-- The values of a type of the codec. -/
abbrev CodecType.Carrier (c : CodecType) : Type := c.type.Carrier

/-- An option of a type with `null` among its forms is none that the codec has: what is there could not be told from
what is not. -/
example : decode (encode (some ())) = .ok (none : Option Unit) := by rfl

end Gatehouse
