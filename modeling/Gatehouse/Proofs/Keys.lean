import Gatehouse.Cache.Call
import Gatehouse.Cache.Keys

/-!
# The parts of the key space

Every key starts with the text of the part it belongs to: markers of revoked tokens, one-time codes, and attempts. The
three parts have no key in common, whatever ids, credentials and codes go into the keys.
-/

namespace Gatehouse

/-- A key starts with a text exactly when it is the text with something after it. -/
theorem startsWith_iff {stem key : String} : startsWith stem key = true ↔ stem.toList <+: key.toList := by
  unfold startsWith
  exact List.isPrefixOf_iff_prefix

theorem startsWith_refl (stem : String) : startsWith stem stem = true :=
  startsWith_iff.mpr (List.prefix_refl _)

theorem startsWith_append (stem rest : String) : startsWith stem (stem ++ rest) = true := by
  rw [startsWith_iff, String.toList_append]
  exact List.prefix_append _ _

theorem startsWith_trans {a b c : String} (h : startsWith a b = true) (h' : startsWith b c = true) :
    startsWith a c = true :=
  startsWith_iff.mpr ((startsWith_iff.mp h).trans (startsWith_iff.mp h'))

theorem startsWith_append_right {stem key : String} (h : startsWith stem key = true) (rest : String) :
    startsWith stem (key ++ rest) = true :=
  startsWith_trans h (startsWith_append key rest)

/-- Of two texts that one key starts with, one starts with the other. -/
theorem startsWith_total {a b key : String} (ha : startsWith a key = true) (hb : startsWith b key = true) :
    startsWith a b = true ∨ startsWith b a = true :=
  (List.prefix_or_prefix_of_prefix (startsWith_iff.mp ha) (startsWith_iff.mp hb)).imp startsWith_iff.mpr
    startsWith_iff.mpr

namespace Keys

/-- The parts of the key space. -/
inductive Part where
  | marker
  | code
  | attempt
deriving DecidableEq

/-- What the keys of a part start with. -/
def Part.stem : Part → String
  | .marker => "auth:revoked_"
  | .code => "auth:code_"
  | .attempt => "rl:"

/-- A key belongs to a part. -/
def Part.Holds (p : Part) (key : String) : Prop := startsWith p.stem key = true

/-- No key belongs to two parts. -/
theorem Part.eq_of_holds {p q : Part} {key : String} (hp : p.Holds key) (hq : q.Holds key) : p = q := by
  have hstems := startsWith_total hp hq
  revert hstems
  cases p <;> cases q <;> decide

theorem revokedToken_holds (id : String) : Part.marker.Holds (revokedToken id) :=
  startsWith_append _ id

theorem code_holds (medium credential c : String) : Part.code.Holds (code medium credential c) := by
  unfold code codeStem
  repeat refine startsWith_append_right ?_ _
  rfl

theorem limiterStem_holds (space : String) (ids : List String) : Part.attempt.Holds (limiterStem space ids) := by
  unfold limiterStem
  repeat refine startsWith_append_right ?_ _
  rfl

/-- Tokens with different ids have different markers. -/
theorem revokedToken_inj {a b : String} : revokedToken a = revokedToken b ↔ a = b := by
  unfold revokedToken
  exact String.append_right_inj _

end Keys

end Gatehouse
