import Gatehouse.Proofs.Text.Digits
import Gatehouse.Settings.Integer

/-!
# Which texts are integers of a type

The digits of a number are taken one by one, and reading stops when what they stand for so far does not fit. Since
every digit takes the number further from zero, this is no other than reading the number as a whole and then looking
whether it fits.
-/

namespace Gatehouse

namespace Digits

/-- Digits, and at least one of them. -/
structure IsNumeral (cs : List Char) : Prop where
  ne_nil : cs ≠ []
  isDigit : ∀ c ∈ cs, isDigit c = true

theorem isNumeral_iff {cs : List Char} (h : cs ≠ []) : IsNumeral cs ↔ ∀ c ∈ cs, isDigit c = true :=
  ⟨IsNumeral.isDigit, fun hdigits => ⟨h, hdigits⟩⟩

/-- The number that digits after a number stand for with it. -/
def extend (n : Nat) (cs : List Char) : Nat := cs.foldl (fun n c => 10 * n + (c.toNat - 0x30)) n

theorem le_extend (n : Nat) (cs : List Char) : n ≤ extend n cs := by
  induction cs generalizing n with
  | nil => exact Nat.le_refl n
  | cons c cs ih =>
    have hnext := ih (10 * n + (c.toNat - 0x30))
    exact Nat.le_trans (by omega) hnext

end Digits

namespace IntegerRange

/-- The texts of an integer: digits with at most one sign before them, a minus sign only for a type with negative
numbers. -/
inductive Writes (r : IntegerRange) : List Char → Int → Prop where
  | plain {cs : List Char} (numeral : Digits.IsNumeral cs) : Writes r cs (Digits.toNat cs)
  | plus {cs : List Char} (numeral : Digits.IsNumeral cs) : Writes r ('+' :: cs) (Digits.toNat cs)
  | minus {cs : List Char} (signed : r.low < 0) (numeral : Digits.IsNumeral cs) :
      Writes r ('-' :: cs) (-Digits.toNat cs)

/-- A text of an integer of the type. -/
structure Denotes (r : IntegerRange) (text : List Char) (n : Int) : Prop where
  writes : r.Writes text n
  low_le : r.low ≤ n
  le_high : n ≤ r.high

/-- A type that zero belongs to. -/
def HasZero (r : IntegerRange) : Prop := r.low ≤ 0 ∧ 0 ≤ r.high

instance (r : IntegerRange) : Decidable r.HasZero := inferInstanceAs (Decidable (_ ∧ _))

variable {r : IntegerRange} {cs : List Char} {n : Int}

theorem denotes_iff {text : List Char} : r.Denotes text n ↔ r.Writes text n ∧ r.low ≤ n ∧ n ≤ r.high :=
  ⟨fun h => ⟨h.writes, h.low_le, h.le_high⟩, fun h => ⟨h.1, h.2.1, h.2.2⟩⟩

/-! ## Digits after a sign -/

/-- A number with a sign before it. -/
def signed (negative : Bool) (k : Nat) : Int := if negative then -k else k

@[simp]
theorem signed_false (k : Nat) : signed false k = k := rfl

@[simp]
theorem signed_true (k : Nat) : signed true k = -k := rfl

theorem le_signed {negative : Bool} {low : Int} {j k : Nat} (hlow : low ≤ 0) (h : j ≤ k)
    (hk : low ≤ signed negative k) : low ≤ signed negative j := by
  cases negative <;> simp only [signed_false, signed_true] at * <;> omega

theorem signed_le {negative : Bool} {high : Int} {j k : Nat} (hhigh : 0 ≤ high) (h : j ≤ k)
    (hk : signed negative k ≤ high) : signed negative j ≤ high := by
  cases negative <;> simp only [signed_false, signed_true] at * <;> omega

/-- Digits are read if what they stand for fits in the end. -/
theorem digits_eq_ok_iff (hzero : r.HasZero) (negative : Bool) {k : Nat} (hlow : r.low ≤ signed negative k)
    (hhigh : signed negative k ≤ r.high) : r.digits negative cs (signed negative k) = .ok n ↔
      (∀ c ∈ cs, Digits.isDigit c = true) ∧ signed negative (Digits.extend k cs) = n ∧ r.low ≤ n ∧ n ≤ r.high := by
  obtain ⟨hnonpos, hnonneg⟩ := hzero
  induction cs generalizing k with
  | nil =>
    rw [digits, Except.ok.injEq]
    refine ⟨?_, fun h => h.2.1⟩
    rintro rfl
    exact ⟨fun c hc => absurd hc List.not_mem_nil, rfl, hlow, hhigh⟩
  | cons c cs ih =>
    rw [digits, List.forall_mem_cons]
    by_cases hc : Digits.isDigit c = true
    · have hvalue : Digits.value? c = some (c.toNat - 0x30) := if_pos hc
      have hnext : (if negative then 10 * signed negative k - (c.toNat - 0x30 : Nat)
          else 10 * signed negative k + (c.toNat - 0x30 : Nat)) = signed negative (10 * k + (c.toNat - 0x30)) := by
        cases negative <;> simp only [signed_false, signed_true, Bool.false_eq_true, if_true, if_false] <;> omega
      have hfold : Digits.extend k (c :: cs) = Digits.extend (10 * k + (c.toNat - 0x30)) cs := rfl
      -- what the digits stand for in the end is no nearer to zero
      have hgrows := Digits.le_extend (10 * k + (c.toNat - 0x30)) cs
      simp only [hvalue, hnext, hfold, hc, true_and]
      split
      · next hsmall =>
        refine ⟨nofun, ?_⟩
        rintro ⟨-, rfl, hn, -⟩
        exact absurd (le_signed hnonpos hgrows hn) (Int.not_le.mpr hsmall)
      · next hlow' =>
        split
        · next hlarge =>
          refine ⟨nofun, ?_⟩
          rintro ⟨-, rfl, -, hn⟩
          exact absurd (signed_le hnonneg hgrows hn) (Int.not_le.mpr hlarge)
        · next hhigh' => exact ih (Int.not_lt.mp hlow') (Int.not_lt.mp hhigh')
    · have hvalue : Digits.value? c = none := if_neg hc
      simp [hvalue, hc]

/-- Digits are read from zero on as the number that they stand for. -/
theorem digits_zero_eq_ok_iff (hzero : r.HasZero) (negative : Bool) : r.digits negative cs 0 = .ok n ↔
    (∀ c ∈ cs, Digits.isDigit c = true) ∧ signed negative (Digits.toNat cs) = n ∧ r.low ≤ n ∧ n ≤ r.high := by
  have hstart : signed negative 0 = 0 := by cases negative <;> rfl
  have hdigits : r.digits negative cs (signed negative 0) = .ok n ↔ _ :=
    digits_eq_ok_iff hzero negative (hstart ▸ hzero.1) (hstart ▸ hzero.2)
  rwa [hstart] at hdigits

/-! ## Texts -/

theorem not_isNumeral_cons {c : Char} (h : Digits.isDigit c = false) : ¬Digits.IsNumeral (c :: cs) := by
  intro hnumeral
  have hc := hnumeral.isDigit c List.mem_cons_self
  rw [h] at hc
  cases hc

theorem writes_plus_iff : r.Writes ('+' :: cs) n ↔ Digits.IsNumeral cs ∧ (Digits.toNat cs : Int) = n := by
  constructor
  · intro h
    cases h with
    | plain numeral => exact absurd numeral (not_isNumeral_cons (by decide))
    | plus numeral => exact ⟨numeral, rfl⟩
  · rintro ⟨numeral, rfl⟩
    exact .plus numeral

theorem writes_minus_iff :
    r.Writes ('-' :: cs) n ↔ r.low < 0 ∧ Digits.IsNumeral cs ∧ -(Digits.toNat cs : Int) = n := by
  constructor
  · intro h
    cases h with
    | plain numeral => exact absurd numeral (not_isNumeral_cons (by decide))
    | minus signed numeral => exact ⟨signed, numeral, rfl⟩
  · rintro ⟨signed, numeral, rfl⟩
    exact .minus signed numeral

theorem writes_plain_iff (hplus : ∀ rest, cs ≠ '+' :: rest) (hminus : ∀ rest, cs ≠ '-' :: rest) :
    r.Writes cs n ↔ Digits.IsNumeral cs ∧ (Digits.toNat cs : Int) = n := by
  constructor
  · intro h
    cases h with
    | plain numeral => exact ⟨numeral, rfl⟩
    | plus numeral => exact absurd rfl (hplus _)
    | minus signed numeral => exact absurd rfl (hminus _)
  · rintro ⟨numeral, rfl⟩
    exact .plain numeral

/-- The texts that are read are those of the integers of the type. -/
theorem parse_eq_ok_iff (hzero : r.HasZero) (text : List Char) : r.parse text = .ok n ↔ r.Denotes text n := by
  rw [denotes_iff]
  unfold parse
  split
  · next =>
    rw [writes_plain_iff (fun _ => (List.cons_ne_nil _ _).symm) fun _ => (List.cons_ne_nil _ _).symm]
    exact ⟨nofun, fun h => absurd rfl h.1.1.ne_nil⟩
  · next =>
    rw [writes_plus_iff]
    exact ⟨nofun, fun h => absurd rfl h.1.1.ne_nil⟩
  · next =>
    rw [writes_minus_iff]
    exact ⟨nofun, fun h => absurd rfl h.1.2.1.ne_nil⟩
  · next _ rest hne =>
    rw [digits_zero_eq_ok_iff hzero, writes_plus_iff, signed_false, Digits.isNumeral_iff hne, and_assoc]
  · next _ rest hne =>
    rw [writes_minus_iff, Digits.isNumeral_iff hne]
    split
    · next hsigned =>
      rw [digits_zero_eq_ok_iff hzero, signed_true, and_iff_right hsigned, and_assoc]
    · next hsigned => exact ⟨nofun, fun h => absurd h.1.1 hsigned⟩
  · next hne hplus hminus hplus' hminus' =>
    rw [digits_zero_eq_ok_iff hzero, writes_plain_iff hplus' hminus', signed_false, Digits.isNumeral_iff hne, and_assoc]

end IntegerRange

end Gatehouse
