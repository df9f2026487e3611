import Gatehouse.Json.Writer
import Gatehouse.Proofs.Json.Scanning
import Gatehouse.Proofs.Text.Bytes

/-!
# Texts are read back

A text is escaped octet by octet, and each octet is read back from its written form. What is put together up to the
closing quote is the UTF-8 form of the text.
-/

namespace Gatehouse.Json.Scanner

/-! ## Escapes -/

theorem hexValue?_hexOctet {d : Nat} (h : d < 16) : Bytes.hexValue? (hexOctet d) = some d := by
  have hdigit : ∀ k < 16, Bytes.hexValue? (hexOctet k) = some k := by decide
  exact hdigit d h

/-- A control character is one octet. -/
theorem ofText_control {c : UInt8} (h : c < 0x20) : Bytes.ofText (String.singleton (Char.ofNat c.toNat)) = [c] := by
  have hcontrol : ∀ n < 32, Bytes.ofText (String.singleton (Char.ofNat n)) = [UInt8.ofNat n] := by decide +kernel
  rw [hcontrol c.toNat (UInt8.lt_iff_toNat_lt.mp h), UInt8.ofNat_toNat]

/-- A letter that escapes a control character stands for it. -/
theorem unescape?_shortEscape {c letter : UInt8} (h : shortEscape? c = some letter) :
    letter ≠ 0x75 ∧ unescape? letter = some c := by
  unfold shortEscape? at h
  repeat' split at h
  case isFalse => cases h
  all_goals
    subst c
    obtain rfl := Option.some.inj h
    decide

/-- A letter other than `u` stands for one octet. -/
theorem run_escape_letter {c letter : UInt8} (hletter : letter ≠ 0x75) (h : unescape? letter = some c) (rest : Bytes) :
    escape.run (letter :: rest) = .ok ([c], rest) := by
  rw [escape, run_bind_ok (run_get _)]
  simp only
  rw [run_bind_ok (run_set _ _), if_neg hletter, h]
  rfl

/-- The number of a control character is read from its four digits, of which two are zeros. -/
theorem run_codePoint {n : Nat} (h : n < 32) (rest : Bytes) :
    codePoint.run (0x30 :: 0x30 :: hexOctet (n / 16) :: hexOctet (n % 16) :: rest) = .ok (n, rest) := by
  have hzero : Bytes.hexValue? 0x30 = some 0 := by decide
  have hhigh := hexValue?_hexOctet (d := n / 16) (by omega)
  have hlow := hexValue?_hexOctet (d := n % 16) (by omega)
  have hvalue : ((0 * 16 + 0) * 16 + n / 16) * 16 + n % 16 = n := by omega
  have hfour : fourHex.run (0x30 :: 0x30 :: hexOctet (n / 16) :: hexOctet (n % 16) :: rest) = .ok (n, rest) := by
    rw [fourHex, run_bind_ok (run_get _)]
    simp only
    rw [run_bind_ok (run_set _ _)]
    simp only [hzero, hhigh, hlow, hvalue]
    rfl
  rw [codePoint, run_bind_ok hfour, if_neg (by omega), if_neg (by omega)]
  rfl

/-- An octet that may not stand for itself in a text is written as a backslash and what stands for the octet. -/
theorem escapeOctet_read {c : UInt8} (h : c = 0x22 ∨ c = 0x5C ∨ c < 0x20) :
    ∃ tail, escapeOctet c = 0x5C :: tail ∧ ∀ rest, escape.run (tail ++ rest) = .ok ([c], rest) := by
  unfold escapeOctet
  by_cases hself : c = 0x22 ∨ c = 0x5C
  · have hstands : c ≠ 0x75 ∧ unescape? c = some c := by rcases hself with rfl | rfl <;> decide
    rw [if_pos hself]
    exact ⟨[c], rfl, run_escape_letter hstands.1 hstands.2⟩
  · have hcontrol : c < 0x20 := by
      rcases h with h | h | h
      · exact absurd (.inl h) hself
      · exact absurd (.inr h) hself
      · exact h
    rw [if_neg hself, if_pos hcontrol]
    cases hletter : shortEscape? c with
    | some letter =>
      obtain ⟨hne, hstands⟩ := unescape?_shortEscape hletter
      exact ⟨[letter], rfl, run_escape_letter hne hstands⟩
    | none =>
      refine ⟨[0x75, 0x30, 0x30, hexOctet (c.toNat / 16), hexOctet (c.toNat % 16)], rfl, fun rest => ?_⟩
      have hpoint := run_codePoint (UInt8.lt_iff_toNat_lt.mp hcontrol) rest
      change escape.run (0x75 :: (0x30 :: 0x30 :: hexOctet (c.toNat / 16) :: hexOctet (c.toNat % 16) :: rest)) = _
      rw [escape, run_bind_ok (run_get _)]
      simp only
      rw [run_bind_ok (run_set _ _), if_pos trivial, run_bind_ok hpoint, ofText_control hcontrol]
      rfl

/-- Any other octet stands for itself. -/
theorem escapeOctet_self {c : UInt8} (h : ¬(c = 0x22 ∨ c = 0x5C ∨ c < 0x20)) : escapeOctet c = [c] := by
  rw [escapeOctet, if_neg fun hself => h (hself.imp_right .inl), if_neg fun hcontrol => h (.inr (.inr hcontrol))]

theorem escapeOctet_ne_nil (c : UInt8) : escapeOctet c ≠ [] := by
  unfold escapeOctet
  repeat' split
  all_goals exact List.cons_ne_nil _ _

/-! ## Texts -/

/-- Octets are read back from their written forms up to the closing quote. -/
theorem run_quoted {b : Bytes} {fuel : Nat} (h : b.length < fuel) (rest : Bytes) :
    (quoted escape fuel).run (b.flatMap escapeOctet ++ 0x22 :: rest) = .ok (b, rest) := by
  induction b generalizing fuel with
  | nil =>
    cases fuel with
    | zero => exact absurd h (Nat.not_lt_zero _)
    | succ fuel => rfl
  | cons c b ih =>
    cases fuel with
    | zero => exact absurd h (Nat.not_lt_zero _)
    | succ fuel =>
      have htail := ih (Nat.lt_of_succ_lt_succ h)
      rw [List.flatMap_cons, List.append_assoc]
      by_cases hescaped : c = 0x22 ∨ c = 0x5C ∨ c < 0x20
      · obtain ⟨tail, hwritten, hread⟩ := escapeOctet_read hescaped
        rw [hwritten, List.cons_append, quoted, run_bind_ok (run_get _)]
        simp only
        rw [run_bind_ok (run_set _ _), if_neg (by decide), if_pos trivial, run_bind_ok (hread _), run_bind_ok htail]
        rfl
      · obtain ⟨hquote, hbackslash, hcontrol⟩ : c ≠ 0x22 ∧ c ≠ 0x5C ∧ ¬c < 0x20 :=
          ⟨fun h => hescaped (.inl h), fun h => hescaped (.inr (.inl h)), fun h => hescaped (.inr (.inr h))⟩
        rw [escapeOctet_self hescaped, List.singleton_append, quoted, run_bind_ok (run_get _)]
        simp only
        rw [run_bind_ok (run_set _ _), if_neg hquote, if_neg hbackslash, if_neg hcontrol, run_bind_ok htail]
        rfl

/-- A text is read back from what follows its opening quote. -/
theorem run_text (s : String) (rest : Bytes) :
    text.run ((Bytes.ofText s).flatMap escapeOctet ++ 0x22 :: rest) = .ok (s, rest) := by
  have hfuel : (Bytes.ofText s).length < ((Bytes.ofText s).flatMap escapeOctet ++ 0x22 :: rest).length + 1 := by
    have hle := length_le_length_flatMap escapeOctet_ne_nil (Bytes.ofText s)
    rw [List.length_append]
    omega
  rw [text, run_bind_ok (run_get _), run_bind_ok (run_quoted hfuel rest), Bytes.text?_ofText]
  rfl

theorem writeText_append (s : String) (rest : Bytes) :
    writeText s ++ rest = 0x22 :: ((Bytes.ofText s).flatMap escapeOctet ++ 0x22 :: rest) := by
  simp [writeText]

/-- A text is read back, whatever comes after it. -/
theorem run_string (s : String) (rest : Bytes) : string.run (writeText s ++ rest) = .ok (s, rest) := by
  rw [writeText_append, string, run_opened (by decide), run_text]

end Gatehouse.Json.Scanner
