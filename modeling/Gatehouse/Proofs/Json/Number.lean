import Gatehouse.Json.Writer
import Gatehouse.Proofs.Json.Scanning
import Gatehouse.Proofs.Text.Digits

/-!
# Integers are read back

The digits of an integer are all taken, because a value is not followed by a digit, and the number that they stand for
stays an unsigned word while they are put together. What comes after them is neither a point nor an exponent, so the
number is an integer.
-/

namespace Gatehouse.Json.Scanner

/-! ## Digits as octets -/

theorem isDigit_iff {c : UInt8} : isDigit c = true ↔ 0x30 ≤ c.toNat ∧ c.toNat ≤ 0x39 := by
  rw [isDigit, Bool.and_eq_true, decide_eq_true_iff, decide_eq_true_iff]
  exact Iff.rfl

theorem toNat_ofNat_char {c : Char} (h : Digits.isDigit c = true) : (UInt8.ofNat c.toNat).toNat = c.toNat := by
  obtain ⟨-, hhigh⟩ := Digits.isDigit_iff.mp h
  rw [UInt8.toNat_ofNat']
  omega

theorem isDigit_ofNat_char {c : Char} (h : Digits.isDigit c = true) : isDigit (UInt8.ofNat c.toNat) = true := by
  rw [isDigit_iff, toNat_ofNat_char h]
  exact Digits.isDigit_iff.mp h

/-- No digit comes after a value. -/
theorem Closes.not_digit {rest : Bytes} (h : Closes rest) : rest.takeWhile isDigit = [] := by
  cases rest with
  | nil => rfl
  | cons c rest =>
    have hdigit : isDigit c = false := by rcases h c rfl with rfl | rfl | rfl <;> decide
    rw [List.takeWhile_cons, hdigit]
    rfl

/-- All digits are taken. -/
theorem run_digits {cs : List Char} (hcs : ∀ c ∈ cs, Digits.isDigit c = true) {rest : Bytes} (hrest : Closes rest) :
    digits.run (ascii cs ++ rest) = .ok (cs.map fun c => c.toNat - 0x30, rest) := by
  have hoctets : ∀ o ∈ ascii cs, isDigit o = true := by
    intro o ho
    obtain ⟨c, hc, rfl⟩ := List.mem_map.mp ho
    exact isDigit_ofNat_char (hcs c hc)
  have htaken : (ascii cs ++ rest).takeWhile isDigit = ascii cs := by
    rw [List.takeWhile_append_of_pos hoctets, hrest.not_digit, List.append_nil]
  have hvalues : (ascii cs).map (fun o => o.toNat - 0x30) = cs.map fun c => c.toNat - 0x30 := by
    rw [ascii, List.map_map]
    refine List.map_congr_left fun c hc => ?_
    rw [Function.comp_apply, toNat_ofNat_char (hcs c hc)]
  change Except.ok (((ascii cs ++ rest).takeWhile isDigit).map (fun o => o.toNat - 0x30),
    (ascii cs ++ rest).drop ((ascii cs ++ rest).takeWhile isDigit).length) = _
  rw [htaken, hvalues, List.drop_left]

/-! ## The number of the digits -/

theorem le_foldl_digits (n : Nat) (ds : List Nat) : n ≤ ds.foldl (fun n d => 10 * n + d) n := by
  induction ds generalizing n with
  | nil => exact Nat.le_refl n
  | cons d ds ih =>
    have hstep := ih (10 * n + d)
    rw [List.foldl_cons]
    omega

/-- Digits that make a word are all put together. -/
theorem accumulate_eq {n : Nat} {ds : List Nat} (h : ds.foldl (fun n d => 10 * n + d) n < wordLimit) :
    accumulate n ds = (ds.foldl (fun n d => 10 * n + d) n, 0) := by
  induction ds generalizing n with
  | nil => rfl
  | cons d ds ih =>
    have hstep : 10 * n + d < wordLimit := Nat.lt_of_le_of_lt (le_foldl_digits _ ds) h
    rw [accumulate, if_pos hstep]
    exact ih h

theorem foldl_digits (cs : List Char) :
    (cs.map fun c => c.toNat - 0x30).foldl (fun n d => 10 * n + d) 0 = Digits.toNat cs := by
  rw [List.foldl_map, Digits.toNat]

/-- What comes after a value is no fraction and no exponent. -/
theorem Closes.head_ne {rest : Bytes} (h : Closes rest) :
    rest.head? ≠ some 0x2E ∧ isExponent rest.head? = false := by
  cases rest with
  | nil => decide
  | cons c rest =>
    rw [List.head?_cons]
    rcases h c rfl with rfl | rfl | rfl <;> decide

/-- Digits of a numeral: there is one, and a first digit that is zero is the only one. -/
structure Numeral (cs : List Char) : Prop where
  isDigit : ∀ c ∈ cs, Digits.isDigit c = true
  ne_nil : cs ≠ []
  leading : ∀ c tail, cs = c :: tail → c.toNat = 0x30 → tail = []

theorem numeral_ofNat (n : Nat) : Numeral (Digits.ofNat n) where
  isDigit _ := Digits.isDigit_of_mem_ofNat
  ne_nil := Digits.ofNat_ne_nil n
  leading := by
    intro c tail hcs hc
    rcases Nat.eq_zero_or_pos n with rfl | hpos
    · have hzero : Digits.ofNat 0 = ['0'] := by decide +kernel
      exact (List.cons.inj (hcs.symm.trans hzero)).2
    · obtain ⟨d, ds, hhead, hd⟩ := Digits.ofNat_head hpos
      obtain ⟨rfl, -⟩ := List.cons.inj (hhead.symm.trans hcs)
      exact absurd hc hd

/-- A numeral that fits a word is taken from its digits. -/
theorem Numeral.run_magnitude {cs : List Char} (h : Numeral cs) (hword : Digits.toNat cs < wordLimit) (negative : Bool)
    {rest : Bytes} (hrest : Closes rest) :
    (magnitude negative).run (ascii cs ++ rest) = .ok (integerNumber negative (Digits.toNat cs), rest) := by
  have hrun := run_digits h.isDigit hrest
  have hvalue := foldl_digits cs
  obtain ⟨c, tail, rfl⟩ := List.exists_cons_of_ne_nil h.ne_nil
  obtain ⟨hlow, -⟩ := Digits.isDigit_iff.mp (h.isDigit c List.mem_cons_self)
  have hput : accumulate 0 ((c :: tail).map fun c => c.toNat - 0x30) = (Digits.toNat (c :: tail), 0) := by
    rw [accumulate_eq (hvalue.symm ▸ hword), hvalue]
  obtain ⟨hpoint, hexponent⟩ := hrest.head_ne
  rw [magnitude, run_bind_ok hrun]
  split
  · next heq => cases heq
  · next heq =>
    -- two digits of which the first is zero
    obtain ⟨hzero, htail⟩ := List.cons.inj heq
    rw [h.leading c tail rfl (Nat.le_antisymm (Nat.sub_eq_zero_iff_le.mp hzero) hlow)] at htail
    cases htail
  · rw [hput]
    simp only
    rw [run_bind_ok (run_peek rest), if_neg hpoint, hexponent]
    rfl

/-- A number without leading zeros that fits a word is taken from its digits. -/
theorem run_magnitude {n : Nat} (h : n < wordLimit) (negative : Bool) {rest : Bytes} (hrest : Closes rest) :
    (magnitude negative).run (ascii (Digits.ofNat n) ++ rest) = .ok (integerNumber negative n, rest) := by
  have hrun := (numeral_ofNat n).run_magnitude (by rwa [Digits.toNat_ofNat]) negative hrest
  rwa [Digits.toNat_ofNat] at hrun

/-! ## Integers -/

/-- An integer of a word, signed or not. -/
def Fits (n : Int) : Prop := -9223372036854775808 ≤ n ∧ n < 18446744073709551616

instance (n : Int) : Decidable (Fits n) := inferInstanceAs (Decidable (_ ∧ _))

/-- An integer starts with a digit, or with a minus sign before its digits. -/
theorem writeNumber_head (n : Int) :
    ∃ c tail, writeNumber (.int n) = c :: tail ∧ startsNumber c = true ∧ (0 ≤ n → c ≠ 0x2D) := by
  have hdigits (n : Nat) : ∃ c tail, ascii (Digits.ofNat n) = c :: tail ∧ isDigit c = true := by
    obtain ⟨c, cs, hcs⟩ := List.exists_cons_of_ne_nil (Digits.ofNat_ne_nil n)
    exact ⟨UInt8.ofNat c.toNat, ascii cs, congrArg ascii hcs,
      isDigit_ofNat_char (Digits.isDigit_of_mem_ofNat (hcs ▸ List.mem_cons_self))⟩
  cases n with
  | ofNat n =>
    obtain ⟨c, tail, hhead, hc⟩ := hdigits n
    refine ⟨c, tail, hhead, by simp [startsNumber, hc], ?_⟩
    rintro - rfl
    exact absurd hc (by decide)
  | negSucc n => exact ⟨0x2D, ascii (Digits.ofNat (n + 1)), rfl, by decide, by omega⟩

/-- An integer of a word is read back. -/
theorem takes_number {n : Int} (h : Fits n) : Takes number (writeNumber (.int n)) (.int n) := by
  intro rest hrest
  obtain ⟨hlow, hhigh⟩ := h
  cases n with
  | ofNat n =>
    have hword : n < wordLimit := Int.ofNat_lt.mp hhigh
    obtain ⟨c, tail, hhead, -, hc⟩ := writeNumber_head (.ofNat n)
    have hsign : (writeNumber (.int (.ofNat n)) ++ rest).head? ≠ some 0x2D := by
      rw [hhead, List.cons_append, List.head?_cons, Ne, Option.some_inj]
      exact hc (Int.natCast_nonneg n)
    rw [number, run_bind_ok (run_peek _), if_neg hsign]
    exact run_magnitude hword false hrest
  | negSucc n =>
    have hword : n + 1 < wordLimit := by
      simp only [wordLimit]
      omega
    have hint : integerNumber true (n + 1) = .int (.negSucc n) := by
      rw [integerNumber, if_pos rfl, if_neg (by omega)]
      rfl
    change number.run (0x2D :: (ascii (Digits.ofNat (n + 1)) ++ rest)) = _
    rw [number, run_bind_ok (run_peek _), if_pos (List.head?_cons ..), run_bind_ok (run_advance _), List.tail_cons,
      run_magnitude hword true hrest, hint]

/-- What starts with a digit or a minus sign is no blank. -/
theorem isSpace_of_startsNumber {c : UInt8} (h : startsNumber c = true) : isSpace c = false := by
  rw [startsNumber, Bool.or_eq_true, beq_iff_eq] at h
  rcases h with rfl | hdigit
  · decide
  · obtain ⟨hlow, -⟩ := isDigit_iff.mp hdigit
    have hne (k : UInt8) (hk : k.toNat < 0x30) : (c == k) = false := by
      rw [beq_eq_false_iff_ne]
      rintro rfl
      omega
    rw [isSpace, hne 0x20 (by decide), hne 0x09 (by decide), hne 0x0A (by decide), hne 0x0D (by decide)]
    rfl

theorem run_anyNumber {c : UInt8} (h : startsNumber c = true) (s : Bytes) :
    anyNumber.run (c :: s) = number.run (c :: s) := by
  rw [anyNumber, run_bind_ok (run_token (isSpace_of_startsNumber h) s), if_pos h]

theorem takes_anyNumber {n : Int} (h : Fits n) : Takes anyNumber (writeNumber (.int n)) (.int n) := by
  intro rest hrest
  have hnumber := takes_number h rest hrest
  obtain ⟨c, tail, hhead, hstarts, -⟩ := writeNumber_head n
  rw [hhead, List.cons_append] at hnumber ⊢
  exact (run_anyNumber hstarts _).trans hnumber

/-- An integer between two bounds is read back. -/
theorem takes_integer {low high n : Int} (h : Fits n) (hlow : low ≤ n) (hhigh : n ≤ high) :
    Takes (integer low high) (writeNumber (.int n)) n := by
  intro rest hrest
  rw [integer, run_bind_ok (takes_anyNumber h rest hrest)]
  simp only [if_pos (And.intro hlow hhigh)]
  rfl

end Gatehouse.Json.Scanner
