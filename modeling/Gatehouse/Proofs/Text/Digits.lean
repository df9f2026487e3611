import Gatehouse.Text.Digits

/-!
# Numbers and their digits

The digits of a number are digits, the first of them is a zero only for zero, and they stand for the number.
-/

namespace Gatehouse.Digits

theorem isDigit_iff {c : Char} : isDigit c = true ↔ 0x30 ≤ c.toNat ∧ c.toNat ≤ 0x39 := by
  rw [isDigit, Bool.and_eq_true, decide_eq_true_iff, decide_eq_true_iff]
  exact Iff.rfl

/-! ## One digit -/

theorem toNat_digitChar (d : Nat) : (digitChar d).toNat = 0x30 + d % 10 := by
  have hdigit : ∀ k < 10, (Char.ofNat (0x30 + k)).toNat = 0x30 + k := by decide +kernel
  exact hdigit _ (Nat.mod_lt d (by decide))

@[simp]
theorem isDigit_digitChar (d : Nat) : isDigit (digitChar d) = true := by
  have hlt : d % 10 < 10 := Nat.mod_lt d (by decide)
  rw [isDigit_iff, toNat_digitChar]
  omega

/-! ## The number of a list of digits -/

/-- A digit more makes ten times the number, and the digit. -/
theorem toNat_append_digit (cs : List Char) (d : Nat) : toNat (cs ++ [digitChar d]) = 10 * toNat cs + d % 10 := by
  rw [toNat, List.foldl_append, List.foldl_cons, List.foldl_nil, toNat_digitChar, Nat.add_sub_cancel_left]
  rfl

/-- Zeros before the digits of a number do not change it. -/
@[simp]
theorem toNat_replicate_append (k : Nat) (cs : List Char) : toNat (List.replicate k '0' ++ cs) = toNat cs := by
  induction k with
  | zero => rfl
  | succ k ih => exact ih

/-! ## The digits of a number -/

theorem ofNat_of_lt {n : Nat} (h : n < 10) : ofNat n = [digitChar n] := by
  rw [ofNat, if_pos h]

theorem ofNat_of_not_lt {n : Nat} (h : ¬n < 10) : ofNat n = ofNat (n / 10) ++ [digitChar n] := by
  rw [ofNat, if_neg h]

theorem ofNat_ne_nil (n : Nat) : ofNat n ≠ [] := by
  rw [ofNat]
  split <;> simp

theorem isDigit_of_mem_ofNat {n : Nat} {c : Char} (h : c ∈ ofNat n) : isDigit c = true := by
  induction n using Nat.strongRecOn with
  | ind n ih =>
    by_cases hlt : n < 10
    · rw [ofNat_of_lt hlt, List.mem_singleton] at h
      rw [h, isDigit_digitChar]
    · rw [ofNat_of_not_lt hlt, List.mem_append, List.mem_singleton] at h
      rcases h with h | h
      · exact ih (n / 10) (by omega) h
      · rw [h, isDigit_digitChar]

/-- The digits of a number stand for it. -/
@[simp]
theorem toNat_ofNat (n : Nat) : toNat (ofNat n) = n := by
  induction n using Nat.strongRecOn with
  | ind n ih =>
    by_cases h : n < 10
    · have hzero := toNat_append_digit [] n
      rw [List.nil_append, ← ofNat_of_lt h] at hzero
      rw [hzero, Nat.mod_eq_of_lt h]
      exact Nat.zero_add n
    · rw [ofNat_of_not_lt h, toNat_append_digit, ih (n / 10) (by omega)]
      exact Nat.div_add_mod n 10

/-- The first digit of a number other than zero is no zero. -/
theorem ofNat_head {n : Nat} (h : 0 < n) : ∃ c cs, ofNat n = c :: cs ∧ c.toNat ≠ 0x30 := by
  induction n using Nat.strongRecOn with
  | ind n ih =>
    by_cases hlt : n < 10
    · refine ⟨digitChar n, [], ofNat_of_lt hlt, ?_⟩
      rw [toNat_digitChar]
      omega
    · obtain ⟨c, cs, hhead, hc⟩ := ih (n / 10) (by omega) (by omega)
      exact ⟨c, cs ++ [digitChar n], by rw [ofNat_of_not_lt hlt, hhead, List.cons_append], hc⟩

/-! ## Padded digits -/

@[simp]
theorem length_padded (width n : Nat) : (padded width n).length = width := by
  induction width generalizing n with
  | zero => rfl
  | succ width ih => rw [padded, List.length_append, ih, List.length_singleton]

theorem isDigit_of_mem_padded {width n : Nat} {c : Char} (h : c ∈ padded width n) : isDigit c = true := by
  induction width generalizing n with
  | zero => exact absurd h List.not_mem_nil
  | succ width ih =>
    rw [padded, List.mem_append, List.mem_singleton] at h
    rcases h with h | h
    · exact ih h
    · rw [h, isDigit_digitChar]

theorem padded_ne_nil {width n : Nat} (h : 0 < width) : padded width n ≠ [] := by
  intro hnil
  have hlength := length_padded width n
  rw [hnil] at hlength
  exact absurd hlength (Nat.ne_of_lt h)

/-- The first character of a field is a digit. -/
theorem padded_eq_cons {width : Nat} (h : 0 < width) (n : Nat) :
    ∃ c cs, padded width n = c :: cs ∧ isDigit c = true := by
  cases hcs : padded width n with
  | nil => exact absurd hcs (padded_ne_nil h)
  | cons c cs => exact ⟨c, cs, rfl, isDigit_of_mem_padded (hcs ▸ List.mem_cons_self)⟩

/-- Padded digits stand for a number that has no more of them. -/
theorem toNat_padded {width n : Nat} (h : n < Nat.pow 10 width) : toNat (padded width n) = n := by
  induction width generalizing n with
  | zero => exact (Nat.lt_one_iff.mp h).symm
  | succ width ih =>
    have hdiv : n / 10 < Nat.pow 10 width := Nat.div_lt_of_lt_mul (Nat.mul_comm _ 10 ▸ h)
    rw [padded, toNat_append_digit, ih hdiv]
    exact Nat.div_add_mod n 10

end Gatehouse.Digits
