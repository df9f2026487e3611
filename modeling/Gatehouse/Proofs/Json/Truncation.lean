import Gatehouse.Proofs.Json.Value

/-!
# Octets that are cut short

Octets are cut short if they end before those of a value do. Wherever that is, a scanner that takes the whole fails on
them for want of octets and for no other cause. Only of a number may it take what is left, as a shorter number.
-/

namespace Gatehouse.Json

/-- Octets cut off before their end. -/
def Cut (p w : Bytes) : Prop := p <+: w ∧ p ≠ w

section Cut

variable {c : UInt8} {p q w w' : Bytes}

theorem not_cut_nil : ¬Cut p [] := fun h => h.2 (List.prefix_nil.mp h.1)

theorem cut_cons : Cut p (c :: w) ↔ p = [] ∨ ∃ q, p = c :: q ∧ Cut q w := by
  constructor
  · rintro ⟨hbegins, hne⟩
    rcases List.prefix_cons_iff.mp hbegins with rfl | ⟨q, rfl, hq⟩
    · exact .inl rfl
    · exact .inr ⟨q, rfl, hq, fun heq => hne (congrArg (List.cons c) heq)⟩
  · rintro (rfl | ⟨q, rfl, hq, hne⟩)
    · exact ⟨List.nil_prefix, (List.cons_ne_nil c w).symm⟩
    · exact ⟨(List.prefix_cons_inj c).mpr hq, fun heq => hne (List.cons.inj heq).2⟩

theorem cut_singleton : Cut p [c] ↔ p = [] := by
  refine ⟨fun h => ?_, fun h => cut_cons.mpr (.inl h)⟩
  rcases cut_cons.mp h with rfl | ⟨q, -, hq⟩
  · rfl
  · exact absurd hq not_cut_nil

theorem Cut.length_lt (h : Cut p w) : p.length < w.length :=
  Nat.lt_of_le_of_ne h.1.length_le fun heq => h.2 (h.1.eq_of_length heq)

/-- Two parts one after another are cut short within the first or, after it, within the second. -/
theorem Cut.of_append (h : Cut p (w ++ w')) : Cut p w ∨ ∃ q, p = w ++ q ∧ Cut q w' := by
  induction w generalizing p with
  | nil => exact .inr ⟨p, rfl, h⟩
  | cons c w ih =>
    rcases cut_cons.mp h with rfl | ⟨q, rfl, hq⟩
    · exact .inl (cut_cons.mpr (.inl rfl))
    · rcases ih hq with hq | ⟨q', rfl, hq'⟩
      · exact .inl (cut_cons.mpr (.inr ⟨q, rfl, hq⟩))
      · exact .inr ⟨q', rfl, hq'⟩

/-- What comes before octets that are cut short, and what comes after them, does not matter. -/
theorem Cut.append (h : Cut p w) (q w' : Bytes) : Cut (q ++ p) (q ++ w ++ w') := by
  rw [List.append_assoc]
  refine ⟨(List.prefix_append_right_inj q).mpr (h.1.trans (List.prefix_append w w')), fun heq => ?_⟩
  have hlength := h.length_lt
  rw [List.append_cancel_left heq, List.length_append] at hlength
  omega

/-- A beginning is cut short if anything comes after what it begins. -/
theorem cut_append (h : p <+: w) (hne : w' ≠ []) : Cut p (w ++ w') := by
  refine ⟨h.trans (List.prefix_append w w'), ?_⟩
  rintro rfl
  exact hne (List.append_right_eq_self.mp (h.eq_of_length_le (by simp)))

end Cut

namespace Scanner

variable {α β : Type}

/-- A scanner fails for want of octets. -/
def Lacks (scan : Scanner α) (p : Bytes) : Prop := scan.run p = .error .truncated

/-- A scanner takes all of the octets. -/
def Exhausts (scan : Scanner α) (p : Bytes) : Prop := ∃ a, scan.run p = .ok (a, [])

theorem Lacks.bind {scan : Scanner α} {p : Bytes} (h : Lacks scan p) (next : α → Scanner β) :
    Lacks (scan >>= next) p :=
  run_bind_error h

/-- If what comes next fails for want of octets when none is left, all of it does. -/
theorem lacks_bind {scan : Scanner α} {p : Bytes} (h : Lacks scan p ∨ Exhausts scan p) {next : α → Scanner β}
    (hnext : ∀ a, Lacks (next a) []) : Lacks (scan >>= next) p := by
  rcases h with h | ⟨a, ha⟩
  · exact h.bind next
  · exact (run_bind_ok ha).trans (hnext a)

/-- What is done with a value does not change which octets are missed. -/
theorem Lacks.map {scan : Scanner α} {p : Bytes} (h : Lacks scan p) (f : α → β) : Lacks (return f (← scan)) p :=
  h.bind _

/-- A value that is cut short is missed, if the rest of it is after the octet that opens it. -/
theorem lacks_opened {c : UInt8} (h : isSpace c = false) {body : Scanner α} {other : UInt8 → Scanner α} {p w : Bytes}
    (hp : Cut p (c :: w)) (hbody : ∀ q, Cut q w → Lacks body q) :
    Lacks (do let c' ← token; if c' = c then do advance; body else other c') p := by
  rcases cut_cons.mp hp with rfl | ⟨q, rfl, hq⟩
  · rfl
  · rw [Lacks, run_opened h]
    exact hbody q hq

theorem Exhausts.map {scan : Scanner α} {p : Bytes} (h : Exhausts scan p) (f : α → β) :
    Exhausts (return f (← scan)) p := by
  obtain ⟨a, ha⟩ := h
  exact ⟨f a, (run_bind_ok ha).trans rfl⟩

/-- A word that is cut short is missed. -/
theorem lacks_word {w p : Bytes} (h : Cut p w) : Lacks (word w) p := by
  induction w generalizing p with
  | nil => exact absurd h not_cut_nil
  | cons c w ih =>
    rcases cut_cons.mp h with rfl | ⟨q, rfl, hq⟩
    · rfl
    · rw [Lacks, word, run_bind_ok (run_get _)]
      simp only [if_true]
      exact ih hq

/-! ## Numbers -/

/-- A beginning of a numeral is a numeral, unless it has no digit. -/
theorem Numeral.of_start {cs ds : List Char} (h : Numeral ds) (hcs : cs <+: ds) (hne : cs ≠ []) : Numeral cs where
  isDigit c hc := h.isDigit c (hcs.mem hc)
  ne_nil := hne
  leading := by
    rintro c tail rfl hzero
    obtain ⟨rest, rfl⟩ := hcs
    have htail := h.leading c (tail ++ rest) rfl hzero
    exact (List.append_eq_nil_iff.mp htail).1

/-- The first digits of a number are a number that is no larger. -/
theorem toNat_le_of_start {cs ds : List Char} (h : cs <+: ds) : Digits.toNat cs ≤ Digits.toNat ds := by
  obtain ⟨rest, rfl⟩ := h
  rw [← foldl_digits, ← foldl_digits, List.map_append, List.foldl_append]
  exact le_foldl_digits _ _

/-- The first digits of a number that is not zero are not zero. -/
theorem pos_of_start_ofNat {n : Nat} {cs : List Char} (h : cs <+: Digits.ofNat (n + 1)) (hne : cs ≠ []) :
    0 < Digits.toNat cs := by
  obtain ⟨c, tail, rfl⟩ := List.exists_cons_of_ne_nil hne
  obtain ⟨rest, hrest⟩ := h
  obtain ⟨d, ds, hhead, hd⟩ := Digits.ofNat_head (Nat.succ_pos n)
  obtain ⟨rfl, -⟩ := List.cons.inj (hrest.trans hhead)
  have hdigit := Digits.isDigit_of_mem_ofNat (hrest ▸ List.mem_cons_self : c ∈ Digits.ofNat (n + 1))
  obtain ⟨hlow, -⟩ := Digits.isDigit_iff.mp hdigit
  have hle := le_foldl_digits (10 * 0 + (c.toNat - 0x30)) (tail.map fun c => c.toNat - 0x30)
  rw [← foldl_digits, List.map_cons, List.foldl_cons]
  omega

/-- Octets that begin written characters are the first of these characters. -/
theorem exists_of_start_ascii {p : Bytes} {cs : List Char} (h : p <+: ascii cs) : ∃ ds, p = ascii ds ∧ ds <+: cs := by
  have htaken : p = (ascii cs).take p.length := List.prefix_iff_eq_take.mp h
  exact ⟨cs.take p.length, htaken.trans List.map_take.symm, List.take_prefix _ _⟩

/-- A number that is cut short is missed or is a number between it and zero. -/
theorem run_number_of_cut {n : Int} (h : Fits n) {p : Bytes} (hp : Cut p (writeNumber (.int n))) :
    Lacks number p ∨ ∃ m, number.run p = .ok (.int m, []) ∧ (0 ≤ m ∧ m ≤ n ∨ n ≤ m ∧ m ≤ 0) := by
  obtain ⟨hlow, hhigh⟩ := h
  cases n with
  | ofNat n =>
    change Cut p (ascii (Digits.ofNat n)) at hp
    obtain ⟨cs, rfl, hcs⟩ := exists_of_start_ascii hp.1
    by_cases hnil : cs = []
    · rw [hnil]
      exact .inl rfl
    · have hle : Digits.toNat cs ≤ n := Nat.le_trans (toNat_le_of_start hcs) (Nat.le_of_eq (Digits.toNat_ofNat n))
      have hnumeral := (numeral_ofNat n).of_start hcs hnil
      have hword : Digits.toNat cs < wordLimit := Nat.lt_of_le_of_lt hle (Int.ofNat_lt.mp hhigh)
      have hrun := hnumeral.run_magnitude hword false closes_nil
      have hsign : (ascii cs).head? ≠ some 0x2D := by
        obtain ⟨c, tail, rfl⟩ := List.exists_cons_of_ne_nil hnil
        have hdigit := isDigit_ofNat_char (hnumeral.isDigit c List.mem_cons_self)
        rw [ascii, List.map_cons, List.head?_cons, Ne, Option.some_inj]
        exact fun heq => absurd (heq ▸ hdigit) (by decide)
      rw [List.append_nil] at hrun
      refine .inr ⟨Digits.toNat cs, ?_, .inl ⟨Int.natCast_nonneg _, Int.ofNat_le.mpr hle⟩⟩
      rw [number, run_bind_ok (run_peek _), if_neg hsign]
      exact hrun
  | negSucc n =>
    change Cut p (0x2D :: ascii (Digits.ofNat (n + 1))) at hp
    rcases cut_cons.mp hp with rfl | ⟨q, rfl, hq⟩
    · exact .inl rfl
    · obtain ⟨cs, rfl, hcs⟩ := exists_of_start_ascii hq.1
      by_cases hnil : cs = []
      · rw [hnil]
        exact .inl rfl
      · have hle : Digits.toNat cs ≤ n + 1 := Nat.le_trans (toNat_le_of_start hcs) (Nat.le_of_eq (Digits.toNat_ofNat _))
        have hnumeral := (numeral_ofNat (n + 1)).of_start hcs hnil
        have hword : Digits.toNat cs < wordLimit := by
          simp only [wordLimit]
          omega
        have hpos := pos_of_start_ofNat hcs hnil
        have hrun := hnumeral.run_magnitude hword true closes_nil
        have hint : integerNumber true (Digits.toNat cs) = .int (-(Digits.toNat cs : Int)) := by
          rw [integerNumber, if_pos rfl, if_neg (by omega)]
        rw [List.append_nil, hint] at hrun
        refine .inr ⟨-(Digits.toNat cs : Int), ?_, .inr ⟨by omega, by omega⟩⟩
        rw [number, run_bind_ok (run_peek _), if_pos (List.head?_cons ..), run_bind_ok (run_advance _), List.tail_cons]
        exact hrun

/-- An integer that is cut short is missed or is another one within bounds around zero. -/
theorem cut_integer {low high n : Int} (h : Fits n) (hlow : low ≤ n ∧ low ≤ 0) (hhigh : n ≤ high ∧ 0 ≤ high) {p : Bytes}
    (hp : Cut p (writeNumber (.int n))) : Lacks (integer low high) p ∨ Exhausts (integer low high) p := by
  obtain ⟨c, tail, hhead, hstarts, -⟩ := writeNumber_head n
  have hcut := hp
  rw [hhead] at hcut
  rcases cut_cons.mp hcut with rfl | ⟨q, rfl, -⟩
  · exact .inl rfl
  · have hany := run_anyNumber hstarts q
    rcases run_number_of_cut h hp with hlacks | ⟨m, hm, hbetween⟩
    · exact .inl (Lacks.bind (hany.trans hlacks) _)
    · refine .inr ⟨m, ?_⟩
      rw [integer, run_bind_ok (hany.trans hm)]
      simp only [if_pos (show low ≤ m ∧ m ≤ high by omega)]
      rfl

/-! ## Texts -/

theorem lacks_fourHex {p : Bytes} (h : p.length < 4) : Lacks fourHex p := by
  match p with
  | [] | [_] | [_, _] | [_, _, _] => rfl
  | _ :: _ :: _ :: _ :: p =>
    rw [List.length_cons, List.length_cons, List.length_cons, List.length_cons] at h
    omega

/-- An escape that is cut short after its backslash is missed. -/
theorem lacks_escape {c : UInt8} {tail p : Bytes} (h : escapeOctet c = 0x5C :: tail) (hp : Cut p tail) :
    Lacks escape p := by
  -- only the escape of a control character without a letter of its own has more than one octet
  have hone (letter : UInt8) (heq : [0x5C, letter] = 0x5C :: tail) : Lacks escape p := by
    obtain ⟨-, rfl⟩ := List.cons.inj heq
    rw [cut_singleton.mp hp]
    rfl
  unfold escapeOctet at h
  split at h
  · exact hone c h
  · split at h
    · split at h
      · next letter _ => exact hone letter h
      · obtain ⟨-, rfl⟩ := List.cons.inj h
        rcases cut_cons.mp hp with rfl | ⟨q, rfl, hq⟩
        · rfl
        · have hfour : Lacks fourHex q := lacks_fourHex hq.length_lt
          rw [Lacks, escape, run_bind_ok (run_get _)]
          simp only
          rw [run_bind_ok (run_set _ _), if_pos trivial]
          exact (hfour.bind _).bind _
    · obtain ⟨rfl, -⟩ := List.cons.inj h
      next hself _ => exact absurd (.inr rfl) hself

/-- Octets of a text that are cut short before the closing quote are missed. -/
theorem lacks_quoted (b : Bytes) {p : Bytes} (hp : Cut p (b.flatMap escapeOctet ++ [0x22])) (fuel : Nat) :
    Lacks (quoted escape fuel) p := by
  induction b generalizing p fuel with
  | nil =>
    rw [cut_singleton.mp hp]
    cases fuel <;> rfl
  | cons c b ih =>
    cases fuel with
    | zero => rfl
    | succ fuel =>
      rw [List.flatMap_cons, List.append_assoc] at hp
      by_cases hescaped : c = 0x22 ∨ c = 0x5C ∨ c < 0x20
      · obtain ⟨tail, hwritten, hread⟩ := escapeOctet_read hescaped
        rw [hwritten, List.cons_append] at hp
        rcases cut_cons.mp hp with rfl | ⟨q, rfl, hq⟩
        · rfl
        · rw [Lacks, quoted, run_bind_ok (run_get _)]
          simp only
          rw [run_bind_ok (run_set _ _), if_neg (by decide), if_pos trivial]
          rcases hq.of_append with hq | ⟨q', rfl, hq'⟩
          · exact (lacks_escape hwritten hq).bind _
          · rw [run_bind_ok (hread q')]
            exact (ih hq' fuel).bind _
      · obtain ⟨hquote, hbackslash, hcontrol⟩ : c ≠ 0x22 ∧ c ≠ 0x5C ∧ ¬c < 0x20 :=
          ⟨fun h => hescaped (.inl h), fun h => hescaped (.inr (.inl h)), fun h => hescaped (.inr (.inr h))⟩
        rw [escapeOctet_self hescaped, List.singleton_append] at hp
        rcases cut_cons.mp hp with rfl | ⟨q, rfl, hq⟩
        · rfl
        · rw [Lacks, quoted, run_bind_ok (run_get _)]
          simp only
          rw [run_bind_ok (run_set _ _), if_neg hquote, if_neg hbackslash, if_neg hcontrol]
          exact (ih hq fuel).bind _

/-- A text that is cut short after its opening quote is missed. -/
theorem lacks_text (s : String) {p : Bytes} (hp : Cut p ((Bytes.ofText s).flatMap escapeOctet ++ [0x22])) :
    Lacks text p := by
  rw [Lacks, text, run_bind_ok (run_get _)]
  exact (lacks_quoted _ hp _).bind _

/-- A text that is cut short is missed. -/
theorem lacks_string (s : String) {p : Bytes} (hp : Cut p (writeText s)) : Lacks string p :=
  lacks_opened (by decide) hp fun _ => lacks_text s

end Scanner

end Gatehouse.Json
