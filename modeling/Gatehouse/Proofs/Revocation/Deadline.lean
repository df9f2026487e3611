import Gatehouse.Proofs.Revocation.Marker

/-!
# The deadline of a marker

A marker is written with a lifetime from now, but what it stands for is a moment: the margin after the expiry of its
token. As long as that margin is not over, the marker is written with a deadline that is told by the distance of the
clocks (`markerDeadline?_of_withinMargin`), and that deadline is still to come. So it gets the same deadline whenever it
is written, if the clocks keep their distance (`markerDeadline?_eq_of_offset_eq`).
-/

namespace Gatehouse

/-- An instant that has not come is in this second or a later one. -/
theorem Instant.lt_of_not_le {t : Instant} {n : Int} (h : ¬t ≤ Instant.ofUnixNanos n) :
    n < (t.seconds + 1) * 1000000000 := by
  have hle : ¬Instant.le t (Instant.ofUnixNanos n) = true := h
  unfold Instant.le Instant.ofUnixNanos at hle
  simp only [Bool.or_eq_true, Bool.and_eq_true, decide_eq_true_eq, not_or, not_and, Int.not_lt] at hle
  obtain ⟨hseconds, -⟩ := hle
  omega

/-- An instant that has come stays in the past. -/
theorem Instant.le_ofUnixNanos_mono {t : Instant} {n n' : Int} (h : t ≤ Instant.ofUnixNanos n) (hle : n ≤ n') :
    t ≤ Instant.ofUnixNanos n' := by
  change Instant.le _ _ = true
  change Instant.le _ _ = true at h
  unfold Instant.le Instant.ofUnixNanos at h ⊢
  simp only [Bool.or_eq_true, Bool.and_eq_true, decide_eq_true_eq] at h ⊢
  omega

namespace TokenRecord

variable {r : TokenRecord} {clocks later : Clocks}

theorem isExpired_mono (h : r.isExpired clocks.instant = true) (hle : clocks.wall ≤ later.wall) :
    r.isExpired later.instant = true := by
  unfold isExpired at h ⊢
  cases hexp : r.expiresAt with
  | none =>
    rw [hexp] at h
    cases h
  | some t =>
    rw [hexp] at h
    exact decide_eq_true (Instant.le_ofUnixNanos_mono (of_decide_eq_true h) hle)

theorem not_le_of_unexpired {t : Instant} (ht : r.expiresAt = some t) (h : r.isExpired clocks.instant = false) :
    ¬t ≤ clocks.instant := by
  unfold isExpired at h
  rw [ht] at h
  exact of_decide_eq_false h

end TokenRecord

namespace Revocation

/-- The deadline on the forward clock of a marker that is written now: none within the option for a marker that never
expires, and none at all if there is no such moment. -/
def markerDeadline? (expiresAt : Option Instant) (clocks : Clocks) : Option (Option Nat) :=
  match markerLifetime expiresAt clocks.instant with
  | .abandoned => none
  | .returned lifetime =>
    match Cache.lifetime lifetime with
    | none => some none
    | some d => (Memory.deadline? clocks.monotonic d).map some

/-- The margin after an expiry, on a forward clock from which the wall clock has an offset. -/
def pegged? (expiresAt : Option Instant) (offset : Int) : Option (Option Nat) :=
  match expiresAt with
  | none => some none
  | some t =>
    (t.add? margin).bind fun last =>
      if last.unixNanos - offset < secondLimit * 1000000000 then some (some (last.unixNanos - offset).toNat) else none

variable {r : TokenRecord} {clocks later : Clocks} {deadline : Option Nat}

/-- The margin after an instant that has not come is still to come. -/
theorem wall_lt_of_add? {t last : Instant} (ht : ¬t ≤ clocks.instant) (h : t.add? margin = some last) :
    clocks.wall < last.unixNanos := by
  have hnow : clocks.wall < (t.seconds + 1) * 1000000000 := Instant.lt_of_not_le ht
  have hlast := le_unixNanos_of_add? h
  have hmargin : margin.nanos = 3600000000000 := rfl
  omega

/-- The margin after an expiry is not over. -/
def WithinMargin (expiresAt : Option Instant) (now : Instant) : Prop :=
  ∀ t ∈ expiresAt, ∀ last ∈ t.add? margin, 0 < last.since now

theorem since_instant (last : Instant) (clocks : Clocks) :
    last.since clocks.instant = last.unixNanos - clocks.wall := by
  unfold Instant.since
  rw [show clocks.instant.unixNanos = clocks.wall from Instant.unixNanos_ofUnixNanos _]

/-- The margin is not over as long as the token has not expired. -/
theorem withinMargin_of_unexpired (h : r.isExpired clocks.instant = false) :
    WithinMargin r.expiresAt clocks.instant := by
  intro t ht last hlast
  have hlt := wall_lt_of_add? (TokenRecord.not_le_of_unexpired ht h) hlast
  rw [since_instant]
  omega

/-- A margin that is not over later is not over now. -/
theorem WithinMargin.of_later {expiresAt : Option Instant} (h : WithinMargin expiresAt later.instant)
    (hle : clocks.wall ≤ later.wall) : WithinMargin expiresAt clocks.instant := by
  intro t ht last hlast
  have hlater := h t ht last hlast
  rw [since_instant] at hlater ⊢
  omega

/-- The lifetime of a marker is what is left of the margin after the expiry of its token. -/
theorem markerLifetime_of_add? {t last : Instant} (h : t.add? margin = some last)
    (hpos : clocks.wall < last.unixNanos) :
    markerLifetime (some t) clocks.instant = .returned (some ⟨(last.unixNanos - clocks.wall).toNat⟩) := by
  simp only [markerLifetime, h, since_instant]
  rw [if_neg (by omega)]

/-- The deadline of a marker depends on the time only through the offset, as long as the margin is not over. -/
theorem markerDeadline?_of_withinMargin {expiresAt : Option Instant} (h : WithinMargin expiresAt clocks.instant) :
    markerDeadline? expiresAt clocks = pegged? expiresAt clocks.offset := by
  cases expiresAt with
  | none => rfl
  | some t =>
    unfold markerDeadline? pegged?
    cases hadd : t.add? margin with
    | none => simp only [markerLifetime, hadd, Option.bind_none]
    | some last =>
      have hpos : clocks.wall < last.unixNanos := by
        have hleft := h t rfl last hadd
        rw [since_instant] at hleft
        omega
      have hlife : Cache.lifetime (some ⟨(last.unixNanos - clocks.wall).toNat⟩) =
          some ⟨(last.unixNanos - clocks.wall).toNat⟩ :=
        Option.filter_some_pos (decide_eq_true (by simp only [ne_eq]; omega))
      have hsum : clocks.monotonic + (last.unixNanos - clocks.wall).toNat =
          (last.unixNanos - clocks.offset).toNat := by
        unfold Clocks.offset
        omega
      have hlimit : (last.unixNanos - clocks.offset).toNat < secondLimit * 1000000000 ↔
          last.unixNanos - clocks.offset < secondLimit * 1000000000 := by
        unfold secondLimit
        omega
      simp only [markerLifetime_of_add? hadd hpos, hlife, Memory.deadline?, hsum, hlimit, hadd, Option.bind_some]
      split <;> rfl

/-- A token gets the same marker later as it gets now, if the margin is not over then and the clocks keep their
distance. -/
theorem markerDeadline?_eq_of_offset_eq {expiresAt : Option Instant} (h : WithinMargin expiresAt later.instant)
    (hle : clocks.wall ≤ later.wall) (hoff : later.offset = clocks.offset) :
    markerDeadline? expiresAt later = markerDeadline? expiresAt clocks := by
  rw [markerDeadline?_of_withinMargin h, markerDeadline?_of_withinMargin (h.of_later hle), hoff]

/-- A marker is live when it is written. -/
theorem isLive_of_markerDeadline? {expiresAt : Option Instant} {e : Memory.Entry}
    (h : markerDeadline? expiresAt clocks = some e.deadline) : e.isLive clocks.monotonic = true := by
  unfold markerDeadline? at h
  split at h
  · cases h
  · split at h
    · unfold Memory.Entry.isLive
      rw [← Option.some.inj h]
      rfl
    · rename_i d hlife
      obtain ⟨deadline, hdeadline, hsome⟩ := Option.map_eq_some_iff.mp h
      have hpos : d.nanos ≠ 0 := of_decide_eq_true (Option.filter_eq_some_iff.mp hlife).2
      unfold Memory.Entry.isLive
      rw [← hsome, Memory.eq_of_deadline? hdeadline]
      exact decide_eq_true (Nat.lt_add_of_pos_right (Nat.pos_of_ne_zero hpos))

/-- A span is what is left of the margin after an expiry; a token that never expires leaves no span. -/
def IsLeft (expiresAt : Option Instant) (now : Instant) (left : Option Span) : Prop :=
  match expiresAt with
  | none => left = none
  | some t => ∃ last d, t.add? margin = some last ∧ left = some d ∧ (d.nanos : Int) = last.since now

/-- The marker of a token that has not expired has left to live what is left of the margin. -/
theorem isLeft_of_markerDeadline? (h : r.isExpired clocks.instant = false)
    (hd : markerDeadline? r.expiresAt clocks = some deadline) :
    IsLeft r.expiresAt clocks.instant (deadline.map fun d => ⟨d - clocks.monotonic⟩) := by
  rw [markerDeadline?_of_withinMargin (withinMargin_of_unexpired h)] at hd
  cases hexp : r.expiresAt with
  | none =>
    rw [hexp] at hd
    cases hd
    rfl
  | some t =>
    rw [hexp] at hd
    obtain ⟨last, hlast, hd⟩ := Option.bind_eq_some_iff.mp hd
    split at hd
    · cases hd
      refine ⟨last, _, hlast, rfl, ?_⟩
      have hpos := wall_lt_of_add? (TokenRecord.not_le_of_unexpired hexp h) hlast
      unfold Instant.since Clocks.offset
      rw [show clocks.instant.unixNanos = clocks.wall from Instant.unixNanos_ofUnixNanos _]
      simp only
      omega
    · cases hd

end Revocation

end Gatehouse
