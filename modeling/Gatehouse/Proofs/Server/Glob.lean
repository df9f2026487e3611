import Gatehouse.Cache.Server.Glob
import Gatehouse.Proofs.Text.Bytes

/-!
# The pattern of the keys under a text

Whatever octets a text has, the pattern made of it admits exactly the keys that start with the text. The pattern is the
text with a backslash before every character that has a meaning in patterns, and a star after it (`quoted_admits_iff`).
-/

namespace Gatehouse.Glob

/-- Reading an octet of a text in a pattern gives that octet back, special or not. -/
theorem parseFrom_escape (b rest : Bytes) :
    parseFrom .outside (escape b ++ rest) = b.map GlobPart.octet ++ parseFrom .outside rest := by
  induction b with
  | nil => rfl
  | cons c b ih =>
    have hcons : escape (c :: b) ++ rest = (if isSpecial c then [0x5C, c] else [c]) ++ (escape b ++ rest) := by
      rw [escape, List.flatMap_cons, List.append_assoc]
      rfl
    rw [hcons, List.map_cons, List.cons_append, ← ih]
    cases hc : isSpecial c with
    | true =>
      have hquote (b : Bytes) : parseFrom .outside (0x5C :: c :: b) = .octet c :: parseFrom .outside b := rfl
      rw [if_pos rfl]
      exact hquote _
    | false =>
      have hplain : step .outside c = (.outside, [.octet c]) := by
        simp only [isSpecial, Bool.or_eq_false_iff, beq_eq_false_iff_ne] at hc
        obtain ⟨⟨⟨⟨hstar, hone⟩, hopen⟩, -⟩, hquote⟩ := hc
        simp only [step, if_neg hstar, if_neg hone, if_neg hopen, if_neg hquote]
      simp only [Bool.false_eq_true, if_false, List.cons_append, List.nil_append, parseFrom, hplain]

theorem parse_startingWith (stem : Bytes) : parse (startingWith stem) = stem.map GlobPart.octet ++ [.anyRun] := by
  unfold parse startingWith
  rw [parseFrom_escape]
  rfl

theorem nil_mem_ends (b : Bytes) : [] ∈ ends b := by
  induction b with
  | nil => exact List.mem_singleton.mpr rfl
  | cons c b ih => exact List.mem_cons_of_mem _ ih

/-- The pattern of a text admits exactly what starts with the text. -/
theorem admits_startingWith (stem key : Bytes) :
    (parse (startingWith stem)).admits key = stem.isPrefixOf key := by
  rw [parse_startingWith]
  induction stem generalizing key with
  | nil =>
    have hany : (ends key).any (fun rest => admits [] rest) = true :=
      List.any_eq_true.mpr ⟨[], nil_mem_ends key, rfl⟩
    rw [List.map_nil, List.nil_append, admits, hany]
    rfl
  | cons c stem ih =>
    cases key with
    | nil => rfl
    | cons c' key =>
      have hparts : admits (GlobPart.octet c :: (stem.map GlobPart.octet ++ [.anyRun])) (c' :: key) =
          ((c' == c) && admits (stem.map GlobPart.octet ++ [.anyRun]) key) := rfl
      rw [List.map_cons, List.cons_append, hparts, ih, List.isPrefixOf_cons_cons]
      exact congrArg (fun e => e && stem.isPrefixOf key) (Bool.beq_comm)

/-! ## Characters -/

/-- A character as it is written so that it stands for itself. -/
def quoteChar (c : Char) : List Char := if c ∈ ['*', '?', '[', ']', '\\'] then ['\\', c] else [c]

/-- A text in which a backslash stands before every character that has a meaning in patterns. -/
def quote (s : String) : String := String.ofList (s.toList.flatMap quoteChar)

/-- Only octets of one character each have a meaning. -/
theorem isSpecial_of_le {n : Nat} (h : 128 ≤ n) (h' : n < 256) : isSpecial (UInt8.ofNat n) = false := by
  have hne (c : UInt8) (hc : c.toNat < 128) : (UInt8.ofNat n == c) = false := by
    rw [beq_eq_false_iff_ne]
    rintro rfl
    rw [UInt8.toNat_ofNat_of_lt' h'] at hc
    omega
  simp only [isSpecial, hne 0x2A (by decide), hne 0x3F (by decide), hne 0x5B (by decide), hne 0x5D (by decide),
    hne 0x5C (by decide), Bool.or_false]

theorem escape_of_plain {b : Bytes} (h : ∀ c ∈ b, isSpecial c = false) : escape b = b := by
  unfold escape
  induction b with
  | nil => rfl
  | cons c b ih =>
    rw [List.flatMap_cons, h c List.mem_cons_self, ih fun c' hc' => h c' (List.mem_cons_of_mem _ hc')]
    rfl

/-- Writing the octets of a character so that they stand for themselves is the same as writing the character so. -/
theorem escape_utf8EncodeChar (c : Char) :
    escape (String.utf8EncodeChar c) = (quoteChar c).flatMap String.utf8EncodeChar := by
  by_cases hascii : c.toNat < 128
  · have hall : ∀ n < 128, escape (String.utf8EncodeChar (Char.ofNat n)) =
        (quoteChar (Char.ofNat n)).flatMap String.utf8EncodeChar := by decide +kernel
    have hc := hall c.toNat hascii
    rwa [Char.ofNat_toNat] at hc
  · have hplain : quoteChar c = [c] := by
      refine if_neg fun hmem => hascii ?_
      have hall : ∀ c ∈ ['*', '?', '[', ']', '\\'], c.toNat < 128 := by simp
      exact hall c hmem
    have hlarge : ∀ b ∈ String.utf8EncodeChar c, isSpecial b = false := by
      have hval : ¬c.val.toNat ≤ 127 := fun hle => hascii (Nat.lt_succ_of_le hle)
      unfold String.utf8EncodeChar
      simp only [if_neg hval]
      intro b hb
      split at hb
      · simp only [List.mem_cons, List.not_mem_nil, or_false] at hb
        rcases hb with rfl | rfl <;> exact isSpecial_of_le (by omega) (by omega)
      · split at hb
        · simp only [List.mem_cons, List.not_mem_nil, or_false] at hb
          rcases hb with rfl | rfl | rfl <;> exact isSpecial_of_le (by omega) (by omega)
        · simp only [List.mem_cons, List.not_mem_nil, or_false] at hb
          rcases hb with rfl | rfl | rfl | rfl <;> exact isSpecial_of_le (by omega) (by omega)
    rw [hplain, escape_of_plain hlarge, List.flatMap_singleton]

theorem ofText_quote (s : String) : Bytes.ofText (quote s) = escape (Bytes.ofText s) := by
  rw [Bytes.ofText_eq_flatMap, Bytes.ofText_eq_flatMap, quote, String.toList_ofList, List.flatMap_assoc]
  unfold escape
  rw [List.flatMap_assoc]
  exact congrArg (List.flatMap · s.toList) (funext fun c => (escape_utf8EncodeChar c).symm)

/-- A quoted text matches literally. For every text, with whatever characters in it, the pattern that is sent for the
keys under it is the text with its special characters quoted, and a star. A key matches that pattern exactly when it
starts with the text. -/
theorem quoted_admits_iff (stem key : String) :
    Bytes.ofText (quote stem ++ "*") = startingWith (Bytes.ofText stem) ∧
      ((parse (Bytes.ofText (quote stem ++ "*"))).admits (Bytes.ofText key) = true ↔ startsWith stem key = true) := by
  have hpattern : Bytes.ofText (quote stem ++ "*") = startingWith (Bytes.ofText stem) := by
    rw [Bytes.ofText_append, ofText_quote]
    rfl
  rw [hpattern, admits_startingWith, Bytes.isPrefixOf_ofText]
  exact ⟨rfl, Iff.rfl⟩

end Gatehouse.Glob
