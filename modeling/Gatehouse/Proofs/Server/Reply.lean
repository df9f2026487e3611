import Gatehouse.Cache.Server.Client
import Gatehouse.Proofs.Text.Bytes
import Gatehouse.Proofs.Text.Digits

/-!
# Reading replies

A cursor comes over the wire as the decimal text of an unsigned word, and is read back as the number that it was. A page
of keys is read back as the texts that the keys are the octets of.
-/

namespace Gatehouse

namespace Digits

/-! ## Decimal texts as octets -/

/-- A digit is one octet. -/
theorem ofText_digit {c : Char} (h : isDigit c = true) : Bytes.ofText (String.ofList [c]) = [UInt8.ofNat c.toNat] := by
  have hdigit : ∀ k < 10, Bytes.ofText (String.ofList [Char.ofNat (0x30 + k)]) = [UInt8.ofNat (0x30 + k)] := by
    decide +kernel
  obtain ⟨hlow, hhigh⟩ := isDigit_iff.mp h
  have hc := hdigit (c.toNat - 0x30) (by omega)
  rw [Nat.add_sub_cancel' hlow, Char.ofNat_toNat] at hc
  exact hc

theorem ofText_digits {cs : List Char} (h : ∀ c ∈ cs, isDigit c = true) :
    Bytes.ofText (String.ofList cs) = cs.map fun c => UInt8.ofNat c.toNat := by
  induction cs with
  | nil => rfl
  | cons c cs ih =>
    have htail := ih fun c' hc' => h c' (List.mem_cons_of_mem _ hc')
    rw [← List.singleton_append, String.ofList_append, Bytes.ofText_append, ofText_digit (h c List.mem_cons_self),
      htail]
    rfl

/-- The octet of a digit stands for what the digit does, and is no sign. -/
theorem value?_octet {c : Char} (h : isDigit c = true) :
    value? (Char.ofNat (UInt8.ofNat c.toNat).toNat) = some (c.toNat - 0x30) ∧
      UInt8.ofNat c.toNat ≠ 0x2B ∧ UInt8.ofNat c.toNat ≠ 0x2D := by
  have hdigit : ∀ k < 10, value? (Char.ofNat (UInt8.ofNat (0x30 + k)).toNat) = some k ∧
      UInt8.ofNat (0x30 + k) ≠ 0x2B ∧ UInt8.ofNat (0x30 + k) ≠ 0x2D := by
    decide +kernel
  obtain ⟨hlow, hhigh⟩ := isDigit_iff.mp h
  have hc := hdigit (c.toNat - 0x30) (by omega)
  rw [Nat.add_sub_cancel' hlow] at hc
  exact hc

/-- The octets of digits are read as what the digits stand for. -/
theorem foldlM_digits {cs : List Char} (h : ∀ c ∈ cs, isDigit c = true) (n : Nat) :
    (cs.map fun c => UInt8.ofNat c.toNat).foldlM
        (fun n c => (value? (Char.ofNat c.toNat)).map fun d => 10 * n + d) n =
      some (cs.foldl (fun n c => 10 * n + (c.toNat - 0x30)) n) := by
  induction cs generalizing n with
  | nil => rfl
  | cons c cs ih =>
    obtain ⟨hvalue, -⟩ := value?_octet (h c List.mem_cons_self)
    rw [List.map_cons, List.foldlM_cons, hvalue]
    exact ih (fun c' hc' => h c' (List.mem_cons_of_mem _ hc')) _

theorem ofText_natText (n : Nat) : Bytes.ofText (natText n) = (ofNat n).map fun c => UInt8.ofNat c.toNat :=
  ofText_digits fun _ => isDigit_of_mem_ofNat

/-- The text of a number starts with a digit, and so without a sign. -/
theorem natText_head (n : Nat) : ∃ c rest, Bytes.ofText (natText n) = c :: rest ∧ c ≠ 0x2B ∧ c ≠ 0x2D := by
  rw [ofText_natText]
  cases hcs : ofNat n with
  | nil => exact absurd hcs (ofNat_ne_nil n)
  | cons c cs =>
    obtain ⟨-, hsign⟩ := value?_octet (isDigit_of_mem_ofNat (hcs ▸ List.mem_cons_self))
    exact ⟨UInt8.ofNat c.toNat, _, rfl, hsign⟩

/-- The digits of a number are read as the number. -/
theorem foldlM_natText (n : Nat) :
    (Bytes.ofText (natText n)).foldlM (fun n c => (value? (Char.ofNat c.toNat)).map fun d => 10 * n + d) 0 =
      some n := by
  have hvalue : (ofNat n).foldl (fun n c => 10 * n + (c.toNat - 0x30)) 0 = n := toNat_ofNat n
  rw [ofText_natText, foldlM_digits (fun _ => isDigit_of_mem_ofNat), hvalue]

end Digits

namespace Reply

theorem int?_natText (n : Nat) : int? (Bytes.ofText (Digits.natText n)) = some (Int.ofNat n) := by
  obtain ⟨c, rest, hhead, hplus, hminus⟩ := Digits.natText_head n
  have hfold := Digits.foldlM_natText n
  rw [hhead] at hfold ⊢
  unfold int?
  split
  · rename_i heq
    exact absurd (List.cons.inj heq).1 hplus
  · rename_i heq
    exact absurd (List.cons.inj heq).1 hminus
  · simp only [List.isEmpty_cons, Bool.false_eq_true, if_false, hfold, Option.map_some]

/-- A cursor is read back from its text. -/
theorem unsigned?_natText {n limit : Nat} (h : n < limit) :
    unsigned? limit (.data (Bytes.ofText (Digits.natText n))) = some n := by
  obtain ⟨c, rest, hhead, -, hminus⟩ := Digits.natText_head n
  have hsign : (Bytes.ofText (Digits.natText n)).head? ≠ some 0x2D := by
    rw [hhead, List.head?_cons, Ne, Option.some_inj]
    exact hminus
  simp only [unsigned?]
  rw [if_neg hsign, int?_natText]
  exact Option.filter_some_pos (decide_eq_true h)

/-- A page of a scan is read as its cursor and the texts of its keys. -/
theorem page?_eq {next : Nat} (h : next < wordLimit) (keys : List String) :
    page? (.array [.data (Bytes.ofText (Digits.natText next)), .array (keys.map fun k => .data (Bytes.ofText k))]) =
      some (next, keys) := by
  have htexts : texts? (.array (keys.map fun k => .data (Bytes.ofText k))) = some keys := by
    simp only [texts?]
    rw [List.mapM_map]
    refine (mapM_of_forall_pure (g := id) fun k _ => Bytes.text?_ofText k).trans ?_
    rw [List.map_id]
    rfl
  simp only [page?]
  rw [unsigned?_natText h, htexts]
  rfl

end Reply

end Gatehouse
