import Gatehouse.Proofs.Text.Digits
import Gatehouse.Proofs.Time.Calendar
import Gatehouse.Time.Rfc3339

/-!
# Instants come back from their text

The parts of a written instant are read one after another, each up to where the next one starts. What is read is a date
that exists and a time of day, so the instant is the one that was written, as long as it is in no leap second.
-/

namespace Gatehouse

/-- A text that starts with no blank character is not trimmed. -/
theorem trimStart_cons {c : Char} {cs : List Char} (h : isBlank c = false) : trimStart (c :: cs) = c :: cs := by
  rw [trimStart, List.dropWhile_cons, h]
  rfl

theorem isBlank_of_isDigit {c : Char} (h : Digits.isDigit c = true) : isBlank c = false := by
  obtain ⟨hlow, hhigh⟩ := Digits.isDigit_iff.mp h
  simp only [isBlank, Bool.or_eq_false_iff, Bool.and_eq_false_iff, decide_eq_false_iff_not, beq_eq_false_iff_ne]
  omega

/-- After something has been read, reading goes on with what is left. -/
theorem bind_eq_of_some {α β : Type} {o : Option α} {f : α → Option β} {a : α} (h : o = some a) : (o >>= f) = f a := by
  rw [h]
  rfl

namespace Rfc3339

/-! ## Parts -/

/-- Digits are taken up to something else, or up to the most that may be taken. -/
theorem digits?_append {most : Nat} {cs rest : List Char} (hcs : ∀ c ∈ cs, Digits.isDigit c = true) (hne : cs ≠ [])
    (hmost : cs.length ≤ most) (hend : cs.length = most ∨ ∀ c ∈ rest.head?, Digits.isDigit c = false) :
    digits? most (cs ++ rest) = some (Digits.toNat cs, rest) := by
  have hrest : (rest.take (most - cs.length)).takeWhile Digits.isDigit = [] := by
    rcases hend with hend | hend
    · rw [hend, Nat.sub_self, List.take_zero, List.takeWhile_nil]
    · cases rest with
      | nil => rw [List.take_nil, List.takeWhile_nil]
      | cons c rest =>
        have hc := hend c rfl
        cases hsub : most - cs.length with
        | zero => rw [List.take_zero, List.takeWhile_nil]
        | succ k => simp [hc]
  have htaken : ((cs ++ rest).take most).takeWhile Digits.isDigit = cs := by
    rw [List.take_append, List.take_of_length_le hmost, List.takeWhile_append_of_pos hcs, hrest, List.append_nil]
  have hnonempty : cs.isEmpty = false := by simpa using hne
  simp [digits?, htaken, hnonempty]

theorem trimStart_padded {width n : Nat} (h : 0 < width) (rest : List Char) :
    trimStart (Digits.padded width n ++ rest) = Digits.padded width n ++ rest := by
  obtain ⟨c, cs, hcs, hc⟩ := Digits.padded_eq_cons h n
  rw [hcs, List.cons_append, trimStart_cons (isBlank_of_isDigit hc)]

/-- A field of a fixed number of digits is read back. -/
theorem digits?_padded {width n : Nat} (hwidth : 0 < width) (h : n < Nat.pow 10 width) (rest : List Char) :
    digits? width (Digits.padded width n ++ rest) = some (n, rest) := by
  have hlength := Digits.length_padded width n
  rw [digits?_append (fun c => Digits.isDigit_of_mem_padded) (Digits.padded_ne_nil hwidth) (Nat.le_of_eq hlength)
    (.inl hlength), Digits.toNat_padded h]

/-- A field of two digits is read back. -/
theorem field?_padded {n : Nat} (h : n < 100) (rest : List Char) :
    field? (Digits.padded 2 n ++ rest) = some (n, rest) := by
  rw [field?, trimStart_padded (by decide), digits?_padded (by decide) h]

/-- A character that is no blank is read back. -/
theorem mark?_cons {c : Char} (h : isBlank c = false) (rest : List Char) : mark? c (c :: rest) = some rest := by
  rw [mark?, trimStart_cons h]
  exact if_pos rfl

/-- A year that starts with a digit has no sign and at most four digits. -/
theorem year?_of_digit {c : Char} (h : Digits.isDigit c = true) (cs : List Char) :
    year? (c :: cs) = (digits? 4 (c :: cs)).map fun (n, rest) => ((n : Int), rest) := by
  obtain ⟨hlow, -⟩ := Digits.isDigit_iff.mp h
  rw [year?, trimStart_cons (isBlank_of_isDigit h)]
  split
  · next heq =>
    rw [(List.cons.inj heq).1] at hlow
    exact absurd hlow (by decide)
  · next heq =>
    rw [(List.cons.inj heq).1] at hlow
    exact absurd hlow (by decide)
  · rfl

/-- The digits after the sign of a year stand for it. -/
theorem digits?_signed (n : Nat) (rest : List Char) :
    let digits := List.replicate (4 - (Digits.ofNat n).length) '0' ++ Digits.ofNat n
    digits? (digits ++ '-' :: rest).length (digits ++ '-' :: rest) = some (n, '-' :: rest) := by
  intro digits
  have hdigits : ∀ c ∈ digits, Digits.isDigit c = true := by
    intro c hc
    rcases List.mem_append.mp hc with hc | hc
    · rw [List.eq_of_mem_replicate hc]
      decide
    · exact Digits.isDigit_of_mem_ofNat hc
  have hne : digits ≠ [] := by
    intro hnil
    have hlength : digits.length = 0 := congrArg List.length hnil
    rw [List.length_append, List.length_replicate] at hlength
    omega
  have hmost : digits.length ≤ (digits ++ '-' :: rest).length := by
    have hlength : (digits ++ '-' :: rest).length = digits.length + ('-' :: rest).length := List.length_append
    omega
  have hend : ∀ c ∈ ('-' :: rest).head?, Digits.isDigit c = false := by
    rintro c ⟨⟩
    decide
  rw [digits?_append hdigits hne hmost (.inr hend), Digits.toNat_replicate_append, Digits.toNat_ofNat]

/-- A year is read back. -/
theorem year?_yearText (year : Int) (rest : List Char) :
    year? (yearText year ++ '-' :: rest) = some (year, '-' :: rest) := by
  unfold yearText
  by_cases hshort : 0 ≤ year ∧ year ≤ 9999
  · rw [if_pos hshort]
    have hlt : year.toNat < 10000 := by omega
    have hread := digits?_padded (show 0 < 4 by decide) hlt ('-' :: rest)
    obtain ⟨c, cs, hcs, hc⟩ := Digits.padded_eq_cons (show 0 < 4 by decide) year.toNat
    rw [hcs, List.cons_append] at hread
    rw [hcs, List.cons_append, year?_of_digit hc, hread]
    simp [Int.toNat_of_nonneg hshort.1]
  · rw [if_neg hshort]
    have hread := digits?_signed year.natAbs rest
    simp only at hread
    by_cases hnegative : year < 0
    · rw [if_pos hnegative, List.cons_append, year?, trimStart_cons (by decide)]
      simp only [hread, Option.map_some, Option.some.injEq, Prod.mk.injEq, and_true]
      omega
    · rw [if_neg hnegative, List.cons_append, year?, trimStart_cons (by decide)]
      simp only [hread, Option.map_some, Option.some.injEq, Prod.mk.injEq, and_true]
      omega

/-- The digits of a fraction are read back, whatever their number. -/
theorem fraction?_padded {width n : Nat} (hwidth : 0 < width) (hmost : width ≤ 9) (h : n < Nat.pow 10 width) :
    fraction? ('.' :: Digits.padded width n ++ ['Z']) = some (n * Nat.pow 10 (9 - width), ['Z']) := by
  have hlength : (Digits.padded width n).length = width := Digits.length_padded width n
  have hend : ∀ c ∈ ['Z'].head?, Digits.isDigit c = false := by
    rintro c ⟨⟩
    decide
  have hread : digits? 9 (Digits.padded width n ++ ['Z']) = some (n, ['Z']) := by
    rw [digits?_append (fun c => Digits.isDigit_of_mem_padded) (Digits.padded_ne_nil hwidth)
      (hlength.symm ▸ hmost) (.inr hend), Digits.toNat_padded h]
  have hdrop : ['Z'].dropWhile Digits.isDigit = ['Z'] := by decide
  simp only [List.cons_append, fraction?, hread, Option.map_some, hdrop, List.length_append, hlength,
    Nat.add_sub_cancel]

/-- A fraction is read back. -/
theorem fraction?_fractionText {nanos : Nat} (h : nanos < 1000000000) :
    fraction? (fractionText nanos ++ ['Z']) = some (nanos, ['Z']) := by
  unfold fractionText
  by_cases hzero : nanos = 0
  · rw [if_pos hzero, hzero]
    rfl
  · rw [if_neg hzero]
    by_cases hmillis : nanos % 1000000 = 0
    · have hlt : nanos / 1000000 < Nat.pow 10 3 := by
        change _ < 1000
        omega
      have hexact : nanos / 1000000 * Nat.pow 10 (9 - 3) = nanos := Nat.div_mul_cancel (Nat.dvd_of_mod_eq_zero hmillis)
      rw [if_pos hmillis, fraction?_padded (by decide) (by decide) hlt, hexact]
    · rw [if_neg hmillis]
      by_cases hmicros : nanos % 1000 = 0
      · have hlt : nanos / 1000 < Nat.pow 10 6 := by
          change _ < 1000000
          omega
        have hexact : nanos / 1000 * Nat.pow 10 (9 - 6) = nanos := Nat.div_mul_cancel (Nat.dvd_of_mod_eq_zero hmicros)
        rw [if_pos hmicros, fraction?_padded (by decide) (by decide) hlt, hexact]
      · rw [if_neg hmicros, fraction?_padded (by decide) (by decide) h]
        exact congrArg (fun n => some (n, ['Z'])) (Nat.mul_one nanos)

/-! ## Instants -/

/-- A date that exists and a time of day are the instant of that day and time. -/
theorem instant?_ofDay {t : Instant} (hrange : Instant.inRange t.seconds = true) :
    instant? (Date.ofDay (t.seconds / 86400)) ((t.seconds % 86400).toNat / 3600)
      ((t.seconds % 86400).toNat / 60 % 60) ((t.seconds % 86400).toNat % 60) t.nanos 0 = some t := by
  obtain ⟨hfirst, hlast⟩ : Instant.firstSecond ≤ t.seconds ∧ t.seconds ≤ Instant.lastSecond := by
    simpa [Instant.inRange] using hrange
  simp only [Instant.firstSecond, Instant.lastSecond] at hfirst hlast
  obtain ⟨hlow, hhigh⟩ := Date.year_ofDay (n := t.seconds / 86400) (by omega) (by omega)
  have hvalid := Date.isValid_ofDay (t.seconds / 86400)
  obtain ⟨ofDay, hofDay⟩ : ∃ n, n = (t.seconds % 86400).toNat := ⟨_, rfl⟩
  rw [← hofDay]
  have hlt : ofDay < 86400 := by omega
  have hsecond : ofDay % 60 ≠ 60 := by omega
  have hparts : 3600 * (ofDay / 3600) + 60 * (ofDay / 60 % 60) + min (ofDay % 60) 59 = ofDay := by omega
  have hseconds : Date.toDay (Date.ofDay (t.seconds / 86400)) * 86400 + (ofDay : Int) - 0 = t.seconds := by
    rw [Date.toDay_ofDay]
    omega
  rw [instant?, if_pos ⟨hvalid, by omega, by omega, by omega, hlow, hhigh⟩]
  simp only [hparts, hseconds, hrange, if_true, if_neg hsecond, Nat.add_zero]

/-- The parts of an instant's text are read back: the day, the time of day with its second, and the fraction. -/
theorem parse?_text_eq {t : Instant} (hnanos : t.nanos < 2000000000) :
    parse? (text t) = instant? (Date.ofDay (t.seconds / 86400)) ((t.seconds % 86400).toNat / 3600)
      ((t.seconds % 86400).toNat / 60 % 60) ((t.seconds % 86400).toNat % 60 + t.nanos / 1000000000)
      (t.nanos % 1000000000) 0 := by
  have hfraction : t.nanos % 1000000000 < 1000000000 := Nat.mod_lt _ (by decide)
  obtain ⟨hmonth, hday⟩ := Date.lt_of_isValid (Date.isValid_ofDay (t.seconds / 86400))
  obtain ⟨ofDay, hofDay⟩ : ∃ n, n = (t.seconds % 86400).toNat := ⟨_, rfl⟩
  have hlt : ofDay < 86400 := by omega
  have hhour : ofDay / 3600 < 100 := by omega
  have hminute : ofDay / 60 % 60 < 100 := by omega
  have hsecond : ofDay % 60 + t.nanos / 1000000000 < 100 := by omega
  have hmark : isBlank '-' = false ∧ isBlank ':' = false ∧ trimStart ['Z'] = ['Z'] := by decide
  have hzone : offset? ['Z'] = some (0, []) := by decide
  rw [parse?, text, String.toList_ofList, instantOf?, chars, ← hofDay]
  simp only [List.append_assoc, List.cons_append]
  rw [bind_eq_of_some (year?_yearText _ _), bind_eq_of_some (mark?_cons hmark.1 _),
    bind_eq_of_some (field?_padded hmonth _), bind_eq_of_some (mark?_cons hmark.1 _),
    bind_eq_of_some (field?_padded hday _)]
  simp only [true_or, if_true]
  rw [bind_eq_of_some rfl, bind_eq_of_some (field?_padded hhour _), bind_eq_of_some (mark?_cons hmark.2.1 _),
    bind_eq_of_some (field?_padded hminute _), bind_eq_of_some (mark?_cons hmark.2.1 _),
    bind_eq_of_some (field?_padded hsecond _), bind_eq_of_some (fraction?_fractionText hfraction), hmark.2.2,
    bind_eq_of_some hzone]
  rfl

/-- An instant outside leap seconds comes back from its text. -/
theorem parse?_text {t : Instant} (hleap : t.isLeap = false) (hrange : Instant.inRange t.seconds = true) :
    parse? (text t) = some t := by
  have hnanos : t.nanos < 1000000000 := by simpa [Instant.isLeap] using hleap
  rw [parse?_text_eq (by omega), Nat.div_eq_of_lt hnanos, Nat.mod_eq_of_lt hnanos, Nat.add_zero]
  exact instant?_ofDay hrange

/-- The text of every instant is that of an instant, if not of the same one: the second after a leap second that is not
the last of its minute is written for it. -/
theorem exists_parse?_text {t : Instant} (hnanos : t.nanos < 2000000000) (hrange : Instant.inRange t.seconds = true) :
    ∃ t', parse? (text t) = some t' := by
  obtain ⟨hfirst, hlast⟩ : Instant.firstSecond ≤ t.seconds ∧ t.seconds ≤ Instant.lastSecond := by
    simpa [Instant.inRange] using hrange
  simp only [Instant.firstSecond, Instant.lastSecond] at hfirst hlast
  obtain ⟨hlow, hhigh⟩ := Date.year_ofDay (n := t.seconds / 86400) (by omega) (by omega)
  have hvalid := Date.isValid_ofDay (t.seconds / 86400)
  obtain ⟨ofDay, hofDay⟩ : ∃ n, n = (t.seconds % 86400).toNat := ⟨_, rfl⟩
  obtain ⟨second, hsecond⟩ : ∃ n, n = ofDay % 60 + t.nanos / 1000000000 := ⟨_, rfl⟩
  rw [parse?_text_eq hnanos, ← hofDay, ← hsecond, instant?, if_pos ⟨hvalid, by omega, by omega, by omega, hlow, hhigh⟩]
  have hexists : Instant.inRange (Date.toDay (Date.ofDay (t.seconds / 86400)) * 86400 +
      (3600 * (ofDay / 3600) + 60 * (ofDay / 60 % 60) + min second 59 : Nat) - 0) = true := by
    rw [Date.toDay_ofDay, Instant.inRange, Bool.and_eq_true, decide_eq_true_iff, decide_eq_true_iff,
      Instant.firstSecond, Instant.lastSecond]
    omega
  simp only [hexists, if_true]
  exact ⟨_, rfl⟩

end Rfc3339

end Gatehouse
