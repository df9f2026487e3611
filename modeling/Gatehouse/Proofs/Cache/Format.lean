import Mathlib.Logic.ExistsUnique
import Gatehouse.Proofs.Cache.Stored

/-!
# The stored form of an entry

Eight octets or more are the stored form of exactly one entry, and fewer are none (`parse_eq_ok_iff`,
`parse_eq_error_iff`). Since zero stands for an entry that never expires, a value that is put for a lifetime must not
get that deadline, whatever the wall clock shows and however short or long the lifetime is (`deadlineAt_eq_zero_iff`).
-/

namespace Gatehouse.Stored

variable {key : String} {raw : Bytes} {e : Stored} {now : Nat} {lifetime : Option Span}

/-! ## Reading octets -/

/-- Octets that are read as an entry are its stored form. -/
theorem eq_toBytes_of_ofBytes? (h : ofBytes? raw = some e) : e.deadline ≤ maxDeadline ∧ e.toBytes = raw := by
  unfold ofBytes? at h
  split at h
  · cases h
  · rename_i hlong
    cases h
    have hlength : (raw.take headerLength).length = headerLength :=
      List.length_take_of_le (Nat.le_of_not_lt hlong)
    have hword : Bytes.toNat (raw.take headerLength) < Nat.pow 256 (raw.take headerLength).length := Bytes.toNat_lt _
    have hheader := Bytes.ofNat_toNat (raw.take headerLength)
    rw [hlength] at hword hheader
    refine ⟨Nat.le_of_lt_succ hword, ?_⟩
    unfold toBytes
    simp only [hheader, List.take_append_drop]

theorem ofBytes?_eq_some_iff : ofBytes? raw = some e ↔ e.deadline ≤ maxDeadline ∧ e.toBytes = raw := by
  constructor
  · exact eq_toBytes_of_ofBytes?
  · rintro ⟨hdeadline, rfl⟩
    exact ofBytes?_toBytes hdeadline

theorem ofBytes?_eq_none_iff : ofBytes? raw = none ↔ raw.length < headerLength := by
  unfold ofBytes?
  split
  · rename_i hshort
    exact iff_of_true rfl hshort
  · rename_i hlong
    exact iff_of_false nofun hlong

theorem parse_eq_ok_iff : parse key raw = .ok e ↔ e.deadline ≤ maxDeadline ∧ e.toBytes = raw := by
  rw [← ofBytes?_eq_some_iff]
  unfold parse
  cases ofBytes? raw <;> simp

theorem parse_eq_error_iff {err : CacheError} :
    parse key raw = .error err ↔ raw.length < headerLength ∧ err = .corruptEntry key := by
  rw [← ofBytes?_eq_none_iff]
  unfold parse
  cases ofBytes? raw <;> simp [eq_comm]

/-- Octets are the stored form of exactly one entry, if they are long enough for a deadline. -/
theorem existsUnique_iff : (∃! e : Stored, e.deadline ≤ maxDeadline ∧ e.toBytes = raw) ↔ headerLength ≤ raw.length := by
  simp only [← ofBytes?_eq_some_iff]
  cases hentry : ofBytes? raw with
  | none =>
    have hshort : raw.length < headerLength := ofBytes?_eq_none_iff.mp hentry
    exact iff_of_false (fun ⟨_, h, _⟩ => nomatch h) (Nat.not_le_of_lt hshort)
  | some e =>
    have hlong : ¬raw.length < headerLength := fun hshort => by
      rw [ofBytes?_eq_none_iff.mpr hshort] at hentry
      cases hentry
    exact iff_of_true ⟨e, rfl, fun e' h => (Option.some.inj h).symm⟩ (Nat.le_of_not_lt hlong)

/-! ## Entries that expire -/

/-- No value that is put for a lifetime gets the deadline of an entry that never expires. -/
theorem deadlineAt_eq_zero_iff : deadlineAt now lifetime = 0 ↔ lifetime = none := by
  cases lifetime with
  | none => exact iff_of_true rfl rfl
  | some d =>
    have hpos : 0 < deadlineAt now (some d) := Nat.le_max_left 1 _
    exact iff_of_false (Nat.ne_of_gt hpos) nofun

theorem remaining_eq_none_iff (e : Stored) (now : Nat) : e.remaining now = none ↔ e.deadline = 0 := by
  unfold remaining
  split
  · rename_i hzero
    exact iff_of_true rfl hzero
  · rename_i hne
    exact iff_of_false nofun hne

/-- An entry never expires just if its deadline is zero; any other one has expired by its deadline. -/
theorem forall_not_isExpired_iff (e : Stored) : (∀ now, e.isExpired now = false) ↔ e.deadline = 0 := by
  constructor
  · intro h
    have hat := h e.deadline
    unfold isExpired at hat
    simpa using hat
  · intro hzero now
    unfold isExpired
    simp [hzero]

/-- Whether an entry is to expire is told by the lifetime for which its value was put. -/
structure Reflects (e : Stored) (lifetime : Option Span) : Prop where
  deadline : e.deadline = 0 ↔ lifetime = none
  remaining : ∀ now, e.remaining now = none ↔ lifetime = none
  expires : (∀ now, e.isExpired now = false) ↔ lifetime = none

theorem reflects_deadlineAt (now : Nat) (value : Bytes) (lifetime : Option Span) :
    Reflects ⟨deadlineAt now lifetime, value⟩ lifetime where
  deadline := deadlineAt_eq_zero_iff
  remaining later := (remaining_eq_none_iff _ later).trans deadlineAt_eq_zero_iff
  expires := (forall_not_isExpired_iff _).trans deadlineAt_eq_zero_iff

/-- The stored form of an entry loses nothing. Whatever the wall clock shows, also before 1970, a value that is put
comes back from its stored form, with a deadline that is zero just if it was put for ever; so it is never taken for one
that does not expire, or the other way round. Octets cannot be read just if they are fewer than eight, and all others
are the stored form of exactly one deadline of 64 bits and one value, as which they are read. -/
theorem stored_form_lossless (clocks : Clocks) (key : String) (value : Bytes) (lifetime : Option Span) (raw : Bytes) :
    (∃ e, parse key (pack clocks.unixMillis value lifetime) = .ok e ∧ e.value = value ∧ e.Reflects lifetime) ∧
      (∀ err, parse key raw = .error err ↔ raw.length < 8 ∧ err = .corruptEntry key) ∧
      ((∃! e : Stored, e.deadline < 18446744073709551616 ∧ e.toBytes = raw) ↔ 8 ≤ raw.length) ∧
      ∀ e, parse key raw = .ok e ↔ e.deadline < 18446744073709551616 ∧ e.toBytes = raw := by
  have hword (e : Stored) : e.deadline < 18446744073709551616 ↔ e.deadline ≤ maxDeadline := Nat.lt_succ_iff
  simp only [hword]
  refine ⟨⟨⟨deadlineAt clocks.unixMillis lifetime, value⟩, ?_, rfl, reflects_deadlineAt _ value lifetime⟩,
    fun err => parse_eq_error_iff, existsUnique_iff, fun e => parse_eq_ok_iff⟩
  exact parse_eq_ok_iff.mpr ⟨deadlineAt_le _ lifetime, rfl⟩

/-- In the first millisecond of 1970 a lifetime of a nanosecond has the first deadline that is not zero. -/
example : parse "k" (pack 0 [7] (some ⟨1⟩)) = .ok ⟨1, [7]⟩ := by rfl

end Gatehouse.Stored
