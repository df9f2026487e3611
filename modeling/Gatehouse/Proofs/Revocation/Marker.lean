import Gatehouse.Proofs.Service.Events

/-!
# The marker of a revoked token

A marker guards its token up to a floor on the forward clock: as long as the engine is open and the floor has not
come, the marker is there and its deadline is not before the floor. The deadline is written by the wall clock and
checked by the forward one, so the floor is the expiry less the offset that the clocks have in the end; a marker
written earlier reaches it as long as the offset has dropped by no more than the margin since.
-/

namespace Gatehouse

/-- How far the wall clock is ahead of the forward clock. -/
def Clocks.offset (c : Clocks) : Int := c.wall - c.monotonic

theorem Instant.unixNanos_ofUnixNanos (n : Int) : (Instant.ofUnixNanos n).unixNanos = n := by
  unfold Instant.ofUnixNanos Instant.unixNanos
  simp only
  omega

/-- The instant of a whole second has come once the wall clock shows that second. -/
theorem Instant.le_ofUnixNanos (seconds n : Int) :
    (⟨seconds, 0⟩ : Instant) ≤ Instant.ofUnixNanos n ↔ seconds * 1000000000 ≤ n := by
  change Instant.le _ _ = true ↔ _
  unfold Instant.le Instant.ofUnixNanos
  simp only [Bool.or_eq_true, Bool.and_eq_true, decide_eq_true_eq]
  omega

namespace Revocation

/-- An hour after an instant is at least an hour after the second in which the instant lies. -/
theorem le_unixNanos_of_add? {t deadline : Instant} (h : t.add? margin = some deadline) :
    t.seconds * 1000000000 + margin.nanos ≤ deadline.unixNanos := by
  have hmargin : margin.nanos = 3600000000000 := rfl
  unfold Instant.add? at h
  rw [hmargin] at h
  split at h
  · rename_i hleap
    omega
  · simp only at h
    split at h
    · cases h
      unfold Instant.unixNanos
      rw [hmargin]
      simp only
      omega
    · cases h

/-- The first reading of the forward clock at which the token of an expiry has expired for sure, if the wall clock is
ahead by an offset then. A token that never expires has none. -/
def floor (expiresAt : Option Instant) (offset : Int) : Option Int :=
  expiresAt.map fun t => t.seconds * 1000000000 - offset

/-- A deadline is not before a floor. Where there is no floor, only what never expires is late enough. -/
def Reaches (floor : Option Int) (deadline : Option Nat) : Prop := ∀ d ∈ deadline, ∃ f ∈ floor, f ≤ (d : Int)

/-- A floor has come. -/
def Passed (floor : Option Int) (now : Nat) : Prop := ∃ f ∈ floor, f ≤ (now : Int)

theorem Passed.mono {floor : Option Int} {now now' : Nat} (h : Passed floor now) (hle : now ≤ now') :
    Passed floor now' := by
  obtain ⟨f, hf, hfle⟩ := h
  exact ⟨f, hf, by omega⟩

/-- A marker that is written while the wall clock is ahead by no more than an offset and the margin reaches the floor
of that offset. -/
theorem reaches_of_markerLifetime {expiresAt : Option Instant} {clocks : Clocks} {offset : Int}
    {lifetime : Option Span} (h : markerLifetime expiresAt clocks.instant = .returned lifetime)
    (hoff : clocks.offset ≤ offset + margin.nanos) :
    Reaches (floor expiresAt offset) ((Cache.lifetime lifetime).map fun d => clocks.monotonic + d.nanos) := by
  intro d hd
  obtain ⟨span, hspan, rfl⟩ := Option.map_eq_some_iff.mp hd
  obtain rfl : lifetime = some span := (Option.filter_eq_some_iff.mp hspan).1
  cases expiresAt with
  | none => cases h
  | some t =>
    refine ⟨t.seconds * 1000000000 - offset, rfl, ?_⟩
    simp only [markerLifetime] at h
    cases hadd : t.add? margin with
    | none =>
      rw [hadd] at h
      cases h
    | some deadline =>
      have hdeadline := le_unixNanos_of_add? hadd
      rw [hadd] at h
      have hnow : clocks.instant.unixNanos = clocks.wall := Instant.unixNanos_ofUnixNanos _
      have hleft : deadline.since clocks.instant ≤ span.nanos := by
        obtain rfl := Option.some.inj (Outcome.returned.inj h)
        split
        · rename_i hle
          exact Int.le_trans hle (Int.natCast_nonneg _)
        · exact Int.self_le_toNat _
      unfold Instant.since at hleft
      unfold Clocks.offset at hoff
      rw [hnow] at hleft
      omega

/-- The engine guards a token up to a floor: it is closed, or the floor has come, or the token has a marker that
reaches the floor. -/
def Guards (id : String) (floor : Option Int) (now : Nat) (m : Memory) : Prop :=
  m.closed = true ∨ Passed floor now ∨
    ∃ e, m.entries.get? (Keys.revokedToken id) = some e ∧ Reaches floor e.deadline

variable {id : String} {floor : Option Int} {now now' : Nat} {m : Memory}

theorem Guards.mono (h : Guards id floor now m) (hle : now ≤ now') : Guards id floor now' m :=
  h.imp_right fun h => h.imp_left fun h => h.mono hle

/-- An entry that reaches the floor is live until the floor comes. -/
theorem isLive_of_reaches {e : Memory.Entry} (h : Reaches floor e.deadline) (hnow : ¬Passed floor now) :
    e.isLive now = true := by
  unfold Memory.Entry.isLive
  cases hd : e.deadline with
  | none => rfl
  | some d =>
    obtain ⟨f, hf, hfle⟩ := h d hd
    have hlt : (now : Int) < f := Int.not_le.mp fun hle => hnow ⟨f, hf, hle⟩
    exact decide_eq_true (by omega)

/-- Removing expired entries leaves a token guarded. -/
theorem Guards.prune (h : Guards id floor now m) : Guards id floor now (m.prune now) := by
  rcases h with hclosed | hpassed | ⟨e, he, hreach⟩
  · exact .inl hclosed
  · exact .inr (.inl hpassed)
  · by_cases hnow : Passed floor now
    · exact .inr (.inl hnow)
    · exact .inr (.inr ⟨e, Memory.get?_prune_of_isLive he (isLive_of_reaches hreach hnow), hreach⟩)

theorem Guards.tick (h : Guards id floor now m) : Guards id floor now (m.tick now) := by
  have hprune := h.prune
  unfold Guards at h hprune ⊢
  rw [m.closed_tick now]
  rcases m.entries_tick now with heq | heq
  · rw [heq]
    exact h
  · rw [heq]
    exact hprune

/-- What a call may do so that a token stays guarded: it does not empty the engine or remove the marker, and a marker
that it writes reaches the floor. -/
def spares (id : String) (floor : Option Int) (now : Nat) : EngineCall → Prop
  | .put key _ lifetime => key = Keys.revokedToken id → Reaches floor (lifetime.map fun d => now + d.nanos)
  | .delete key | .take key => key ≠ Keys.revokedToken id
  | .flush => False
  | _ => True

/-- A call that spares a token leaves it guarded. -/
theorem Guards.perform (h : Guards id floor now m) {c : EngineCall} (hc : spares id floor now c) :
    Guards id floor now (m.perform now c).2 := by
  have hinsert (key : String) (e : Memory.Entry) (he : key = Keys.revokedToken id → Reaches floor e.deadline) :
      Guards id floor now { m with entries := m.entries.insert key e } := by
    refine h.imp_right fun h => h.imp_right ?_
    rintro ⟨e', he', hreach⟩
    rw [Table.get?_insert]
    split
    · rename_i heq
      exact ⟨e, rfl, he heq.symm⟩
    · exact ⟨e', he', hreach⟩
  have herase (key : String) (hne : key ≠ Keys.revokedToken id) :
      Guards id floor now { m with entries := m.entries.erase key } := by
    refine h.imp_right fun h => h.imp_right ?_
    rintro ⟨e, he, hreach⟩
    refine ⟨e, ?_, hreach⟩
    rw [Table.get?_erase, if_neg hne.symm]
    exact he
  have hbecomes := m.becomes_perform now c
  generalize (m.perform now c).2 = m' at hbecomes ⊢
  cases hbecomes with
  | same c => exact h
  | inserted key value lifetime => exact hinsert key _ hc
  | deleted key => exact herase key hc
  | taken key => exact herase key hc
  | flushed => exact hc.elim
  | closed => exact .inl rfl

end Revocation

end Gatehouse
