import Gatehouse.Proofs.Cache.Engines
import Gatehouse.Proofs.Server.Lease

/-!
# Lifetimes on the three engines

Every engine turns a lifetime into a deadline of its own: exact on the forward clock, or in milliseconds that fit a
word. A value that is taken should be there at first, gone once its lifetime is over, and last at least as long as
anything that was put at the same time for a shorter time.
-/

namespace Gatehouse

/-- How long the wall clock still has to go until 1970. -/
def Clocks.untilEpoch (clocks : Clocks) : Nat := (-clocks.wall).toNat

/-- What is answered about a value after a run, given when it is there at first, and after how long it is to be gone. -/
structure Timely (steps : List CacheStep) (first : Prop) (limit : Nat) (shown : Outcome (Except CacheError Bool)) :
    Prop where
  answered : ∃ live, shown = .returned (.ok live)
  at_first : (elapsed steps).nanos = 0 → (shown = .returned (.ok true) ↔ first)
  in_time : limit ≤ (elapsed steps).nanos → shown = .returned (.ok false)

/-! ## Deadlines in milliseconds -/

namespace Expiry

variable {clocks : Clocks} {d : Span} {millis millis' : Nat}

/-- A deadline of at least a millisecond has come once its lifetime is over and the wall clock shows milliseconds. -/
theorem isAhead_wall_of_over {e : Span} (hmillis : millis ≤ clocks.unixMillis + max 1 d.millis)
    (hover : max d.nanos 1000000 + clocks.untilEpoch ≤ e.nanos) : (wall millis).isAhead (clocks.advance e) = false := by
  refine decide_eq_false ?_
  unfold Clocks.untilEpoch at hover
  unfold Clocks.unixMillis Span.millis at hmillis
  unfold Clocks.unixMillis Clocks.advance
  simp only
  omega

/-- The wall clock comes to show every number of milliseconds from now on. -/
theorem exists_unixMillis_eq {t : Nat} (h : clocks.unixMillis ≤ t) : ∃ d, (clocks.advance d).unixMillis = t := by
  refine ⟨⟨((t : Int) * 1000000 - clocks.wall).toNat⟩, ?_⟩
  unfold Clocks.unixMillis at h
  unfold Clocks.unixMillis Clocks.advance
  simp only
  omega

/-- A deadline is still to come whenever another one is, just if it is no sooner or both have come. -/
theorem isAhead_wall_iff :
    (∀ d, (wall millis).isAhead (clocks.advance d) = true → (wall millis').isAhead (clocks.advance d) = true) ↔
      millis ≤ max clocks.unixMillis millis' := by
  simp only [isAhead, decide_eq_true_eq]
  constructor
  · intro h
    obtain ⟨d, hd⟩ := exists_unixMillis_eq (Nat.le_max_left clocks.unixMillis millis')
    have hahead := h d
    rw [hd] at hahead
    omega
  · intro h d hahead
    have hle := clocks.unixMillis_le_advance d
    omega

end Expiry

namespace Stored

variable {now : Nat} {d d' : Span}

theorem deadlineAt_le_add (now : Nat) (d : Span) : deadlineAt now (some d) ≤ now + max 1 d.millis := by
  have hword : d.millisWord ≤ d.millis := Nat.mod_le _ _
  unfold deadlineAt
  simp only
  omega

/-- A deadline is still to come when the entry is written, just if the lifetime is a millisecond or more that a word
does not lose. -/
theorem lt_deadlineAt_iff :
    now < deadlineAt now (some d) ↔ (0 < d.millisWord ∨ now = 0) ∧ now < maxDeadline := by
  have hmax : 0 < maxDeadline := by decide
  unfold deadlineAt
  simp only
  omega

theorem deadlineAt_le_deadlineAt (h : d.millisWord ≤ d'.millisWord) :
    deadlineAt now (some d) ≤ deadlineAt now (some d') := by
  unfold deadlineAt
  simp only
  omega

end Stored

/-- Of lifetimes that fit a word the longer one has the larger word. -/
theorem Span.millisWord_le {d d' : Span} (h : d.nanos ≤ d'.nanos) (hfits : d'.millis < 18446744073709551616) :
    d.millisWord ≤ d'.millisWord := by
  have hmillis : d.millis ≤ d'.millis := Nat.div_le_div_right h
  unfold millisWord
  rw [Nat.mod_eq_of_lt hfits]
  exact Nat.le_trans (Nat.mod_le _ _) hmillis

/-! ## The three engines -/

variable {σ : Type} {S : Server σ}

theorem Leasing.timely {B : Backend σ} (L : Leasing B) {clocks : Clocks} {s : σ} {p : Deposit} {steps : List CacheStep}
    {first : Prop} {limit : Nat} (hs : L.Kind s) (hput : B.Accepts clocks s p) (hpos : 0 < p.lifetime.nanos)
    (hsteps : ∀ e ∈ steps, e.Spares p.key)
    (hfirst : (L.expiry clocks p.lifetime).isAhead clocks = true ↔ first)
    (hgone : ∀ d : Span, limit ≤ d.nanos → (L.expiry clocks p.lifetime).isAhead (clocks.advance d) = false) :
    Timely steps first limit (B.shows clocks s p steps) := by
  have hshows := L.shows_eq hs hput hpos hsteps
  refine ⟨⟨_, hshows⟩, fun hnone => ?_, fun hle => ?_⟩
  · have hstill : clocks.advance (elapsed steps) = clocks := by
      unfold Clocks.advance
      rw [hnone, Int.natCast_zero, Int.add_zero, Nat.add_zero]
    rw [hshows, hstill, ← hfirst, Outcome.returned.injEq, Except.ok.injEq]
  · rw [hshows, hgone _ hle]

/-- On each of the three engines a value that is taken for a lifetime is answered as there or not, without fail, as long
as nobody writes its key again. In memory and at a server it is there at first. The embedded engine has it at first just
if its word of milliseconds is not zero, and the wall clock is not at the largest deadline; in the first millisecond of
1970 the word may be zero. Once the lifetime has passed, or a millisecond if that is longer, it is gone on all of them;
the two that keep to the wall clock count from 1970. -/
theorem timely_of_accepted (hS : S.Documented) (hsteady : S.Steady) (clocks : Clocks) (p : Deposit)
    (hpos : 0 < p.lifetime.nanos) (steps : List CacheStep) (hsteps : ∀ e ∈ steps, e.Spares p.key) :
    (∀ m : Memory, Backend.engine.Accepts clocks (.memory m) p →
      Timely steps True (max p.lifetime.nanos 1000000) (Backend.engine.shows clocks (.memory m) p steps)) ∧
    (∀ s : Embedded, Backend.engine.Accepts clocks (.embedded s) p →
      Timely steps ((0 < p.lifetime.millisWord ∨ clocks.unixMillis = 0) ∧ clocks.unixMillis < Stored.maxDeadline)
        (max p.lifetime.nanos 1000000 + clocks.untilEpoch) (Backend.engine.shows clocks (.embedded s) p steps)) ∧
    (∀ r : Session σ, S.Sound r.far → S.backend.Accepts clocks r p →
      Timely steps True (max p.lifetime.nanos 1000000 + clocks.untilEpoch) (S.backend.shows clocks r p steps)) := by
  refine ⟨fun m hput => ?_, fun s hput => ?_, fun r hs hput => ?_⟩
  · refine Memory.leasing.timely ⟨m, rfl⟩ hput hpos hsteps ?_ fun d hd => ?_
    · exact iff_true_intro (decide_eq_true (Nat.lt_add_of_pos_right hpos))
    · have hover : ¬clocks.monotonic + d.nanos < clocks.monotonic + p.lifetime.nanos := by omega
      exact decide_eq_false hover
  · refine Embedded.leasing.timely ⟨s, rfl⟩ hput hpos hsteps ?_ fun d hd => ?_
    · exact decide_eq_true_iff.trans Stored.lt_deadlineAt_iff
    · exact Expiry.isAhead_wall_of_over (Stored.deadlineAt_le_add _ _) hd
  · refine (Server.leasing hS hsteady).timely hs hput hpos hsteps ?_ fun d hd => ?_
    · exact iff_true_intro (decide_eq_true (Nat.lt_add_of_pos_right (Nat.le_max_left 1 _)))
    · have hword : p.lifetime.millisWord ≤ p.lifetime.millis := Nat.mod_le _ _
      exact Expiry.isAhead_wall_of_over (by omega) hd

/-- A value that is put for a time. -/
def sampleDeposit (lifetime : Span) : Deposit := ⟨"session:1", "open", lifetime⟩

/-- A value that is put for two seconds is there at first, and gone after two seconds in which another one is put. -/
theorem timely_of_two_seconds :
    let clocks : Clocks := ⟨1700000000000000000, 1000000000000000⟩
    let p := sampleDeposit (Span.ofSeconds 2)
    let steps : List CacheStep :=
      [.call (.put String "session:2" "open" none), .advance (Span.ofSeconds 2), .maintain .tick, .call (.keys "")]
    let memory : Engine := .memory (Memory.start 0 none)
    let embedded : Engine := .embedded (Embedded.openStore Table.empty false)
    let session : Session Keyspace := ⟨Client.new (Span.ofSeconds 1) 0, true, {}⟩
    (Backend.engine.Accepts clocks memory p ∧ Backend.engine.shows clocks memory p [] = .returned (.ok true) ∧
      Backend.engine.shows clocks memory p steps = .returned (.ok false)) ∧
    (Backend.engine.Accepts clocks embedded p ∧ Backend.engine.shows clocks embedded p [] = .returned (.ok true) ∧
      Backend.engine.shows clocks embedded p steps = .returned (.ok false)) ∧
    Keyspace.repeating.backend.Accepts clocks session p ∧
      Keyspace.repeating.backend.shows clocks session p [] = .returned (.ok true) ∧
      Keyspace.repeating.backend.shows clocks session p steps = .returned (.ok false) := by
  intro clocks p steps memory embedded session
  have hpos : 0 < p.lifetime.nanos := by decide
  have hsteps : ∀ e ∈ steps, e.Spares p.key := by
    simp only [steps, List.forall_mem_cons, CacheStep.Spares, CacheCall.Spares]
    exact ⟨by decide, trivial, trivial, trivial, List.forall_mem_nil _⟩
  have hmemory : Backend.engine.Accepts clocks memory p := Memory.accepts rfl rfl hpos (by decide)
  have hembedded : Backend.engine.Accepts clocks embedded p := Embedded.accepts rfl rfl hpos
  have hsession : Keyspace.repeating.backend.Accepts clocks session p :=
    Server.accepts Keyspace.repeating_documented trivial rfl rfl hpos (by decide)
  obtain ⟨hm, hs, hr⟩ := timely_of_accepted Keyspace.repeating_documented Keyspace.repeating_steady clocks p hpos []
    (List.forall_mem_nil _)
  obtain ⟨hm', hs', hr'⟩ :=
    timely_of_accepted Keyspace.repeating_documented Keyspace.repeating_steady clocks p hpos steps hsteps
  exact ⟨⟨hmemory, ((hm _ hmemory).at_first rfl).mpr trivial, (hm' _ hmemory).in_time (by decide)⟩,
    ⟨hembedded, ((hs _ hembedded).at_first rfl).mpr (by decide), (hs' _ hembedded).in_time (by decide)⟩,
    hsession, ((hr _ trivial hsession).at_first rfl).mpr trivial, (hr' _ trivial hsession).in_time (by decide)⟩

/-- The embedded engine takes a value for a lifetime of less than a millisecond, and does not have it at any time. -/
theorem not_timely_of_short_lifetime :
    let clocks : Clocks := ⟨1700000000000000000, 1000000000000000⟩
    let p := sampleDeposit ⟨999999⟩
    0 < p.lifetime.nanos ∧ Backend.engine.Accepts clocks (.embedded (Embedded.openStore Table.empty false)) p ∧
      Backend.engine.shows clocks (.embedded (Embedded.openStore Table.empty false)) p [] = .returned (.ok false) := by
  intro clocks p
  have hpos : 0 < p.lifetime.nanos := by decide
  have haccepts : Backend.engine.Accepts clocks (.embedded (Embedded.openStore Table.empty false)) p :=
    Embedded.accepts rfl rfl hpos
  have hgone : (Embedded.leasing.expiry clocks p.lifetime).isAhead (clocks.advance (elapsed [])) = false := by
    decide +kernel
  have hshows := Embedded.leasing.shows_eq ⟨_, rfl⟩ haccepts hpos (List.forall_mem_nil _)
  rw [hgone] at hshows
  exact ⟨hpos, haccepts, hshows⟩

/-- Of two values that are put at the same time, the one with the longer lifetime outlives the other one in memory. On a
disk it does so just if its deadline is no sooner or both deadlines have come, and at a server just if its word of
milliseconds is no smaller, where none counts as one. Both hold if the longer lifetime fits a word of milliseconds. -/
theorem longer_lifetime_outlives_iff (hS : S.Documented) (hsteady : S.Steady) (clocks : Clocks) (p p' : Deposit)
    (hpos : 0 < p.lifetime.nanos) (hle : p.lifetime.nanos ≤ p'.lifetime.nanos) :
    (∀ m m' : Memory, Backend.engine.Accepts clocks (.memory m) p → Backend.engine.Accepts clocks (.memory m') p' →
      Backend.engine.Outlives clocks (.memory m') p' (.memory m) p) ∧
    (∀ s s' : Embedded, Backend.engine.Accepts clocks (.embedded s) p →
      Backend.engine.Accepts clocks (.embedded s') p' →
      (Backend.engine.Outlives clocks (.embedded s') p' (.embedded s) p ↔
        Stored.deadlineAt clocks.unixMillis (some p.lifetime) ≤
          max clocks.unixMillis (Stored.deadlineAt clocks.unixMillis (some p'.lifetime)))) ∧
    (∀ r r' : Session σ, S.Sound r.far → S.Sound r'.far → S.backend.Accepts clocks r p →
      S.backend.Accepts clocks r' p' →
      (S.backend.Outlives clocks r' p' r p ↔ max 1 p.lifetime.millisWord ≤ max 1 p'.lifetime.millisWord)) ∧
    (p'.lifetime.millis < 18446744073709551616 →
      Stored.deadlineAt clocks.unixMillis (some p.lifetime) ≤
          max clocks.unixMillis (Stored.deadlineAt clocks.unixMillis (some p'.lifetime)) ∧
        max 1 p.lifetime.millisWord ≤ max 1 p'.lifetime.millisWord) := by
  have hpos' : 0 < p'.lifetime.nanos := Nat.lt_of_lt_of_le hpos hle
  refine ⟨fun m m' hput hput' => ?_, fun s s' hput hput' => ?_, fun r r' hs hs' hput hput' => ?_, fun hfits => ?_⟩
  · refine (Memory.leasing.outlives_iff ⟨m', rfl⟩ ⟨m, rfl⟩ hput' hput hpos' hpos).mpr fun d hahead => ?_
    have hlt : (clocks.advance d).monotonic < clocks.monotonic + p.lifetime.nanos := of_decide_eq_true hahead
    exact decide_eq_true (Nat.lt_of_lt_of_le hlt (Nat.add_le_add_left hle _))
  · exact (Embedded.leasing.outlives_iff ⟨s', rfl⟩ ⟨s, rfl⟩ hput' hput hpos' hpos).trans Expiry.isAhead_wall_iff
  · refine ((Server.leasing hS hsteady).outlives_iff hs' hs hput' hput hpos' hpos).trans
      (Expiry.isAhead_wall_iff.trans ?_)
    omega
  · have hword := Span.millisWord_le hle hfits
    exact ⟨Nat.le_trans (Stored.deadlineAt_le_deadlineAt hword) (Nat.le_max_right _ _), by omega⟩

/-- A value that is put for two seconds outlives one that is put for a second, on each of the three engines. -/
theorem longer_lifetime_outlives_of_two_seconds :
    let clocks : Clocks := ⟨1700000000000000000, 1000000000000000⟩
    let p := sampleDeposit (Span.ofSeconds 1)
    let p' := sampleDeposit (Span.ofSeconds 2)
    let memory : Engine := .memory (Memory.start 0 none)
    let embedded : Engine := .embedded (Embedded.openStore Table.empty false)
    let session : Session Keyspace := ⟨Client.new (Span.ofSeconds 1) 0, true, {}⟩
    (Backend.engine.Accepts clocks memory p ∧ Backend.engine.Accepts clocks memory p' ∧
      Backend.engine.Outlives clocks memory p' memory p) ∧
    (Backend.engine.Accepts clocks embedded p ∧ Backend.engine.Accepts clocks embedded p' ∧
      Backend.engine.Outlives clocks embedded p' embedded p) ∧
    Keyspace.repeating.backend.Accepts clocks session p ∧ Keyspace.repeating.backend.Accepts clocks session p' ∧
      Keyspace.repeating.backend.Outlives clocks session p' session p := by
  intro clocks p p' memory embedded session
  have hpos : 0 < p.lifetime.nanos := by decide
  have hpos' : 0 < p'.lifetime.nanos := by decide
  have hmemory : Backend.engine.Accepts clocks memory p := Memory.accepts rfl rfl hpos (by decide)
  have hmemory' : Backend.engine.Accepts clocks memory p' := Memory.accepts rfl rfl hpos' (by decide)
  have hembedded : Backend.engine.Accepts clocks embedded p := Embedded.accepts rfl rfl hpos
  have hembedded' : Backend.engine.Accepts clocks embedded p' := Embedded.accepts rfl rfl hpos'
  have hsession : Keyspace.repeating.backend.Accepts clocks session p :=
    Server.accepts Keyspace.repeating_documented trivial rfl rfl hpos (by decide)
  have hsession' : Keyspace.repeating.backend.Accepts clocks session p' :=
    Server.accepts Keyspace.repeating_documented trivial rfl rfl hpos' (by decide)
  obtain ⟨hm, hs, hr, hfits⟩ := longer_lifetime_outlives_iff Keyspace.repeating_documented Keyspace.repeating_steady
    clocks p p' hpos (by decide)
  obtain ⟨hdeadline, hword⟩ := hfits (by decide)
  exact ⟨⟨hmemory, hmemory', hm _ _ hmemory hmemory'⟩,
    ⟨hembedded, hembedded', (hs _ _ hembedded hembedded').mpr hdeadline⟩,
    hsession, hsession', (hr _ _ trivial trivial hsession hsession').mpr hword⟩

/-- The embedded engine takes a value for a second, and one for more seconds than a word of milliseconds counts: the
first one is there, and the second one is not. -/
theorem longer_lifetime_not_outlives :
    let clocks : Clocks := ⟨1700000000000000000, 1000000000000000⟩
    let p := sampleDeposit (Span.ofSeconds 1)
    let p' := sampleDeposit (Span.ofMillis 18446744073709551616)
    let embedded : Engine := .embedded (Embedded.openStore Table.empty false)
    0 < p.lifetime.nanos ∧ p.lifetime.nanos ≤ p'.lifetime.nanos ∧ Backend.engine.Accepts clocks embedded p ∧
      Backend.engine.Accepts clocks embedded p' ∧
      Backend.engine.shows clocks embedded p [] = .returned (.ok true) ∧
      Backend.engine.shows clocks embedded p' [] = .returned (.ok false) := by
  intro clocks p p' embedded
  have hpos : 0 < p.lifetime.nanos := by decide
  have hpos' : 0 < p'.lifetime.nanos := by decide
  have haccepts : Backend.engine.Accepts clocks embedded p := Embedded.accepts rfl rfl hpos
  have haccepts' : Backend.engine.Accepts clocks embedded p' := Embedded.accepts rfl rfl hpos'
  have hahead : (Embedded.leasing.expiry clocks p.lifetime).isAhead (clocks.advance (elapsed [])) = true := by
    decide +kernel
  have hgone : (Embedded.leasing.expiry clocks p'.lifetime).isAhead (clocks.advance (elapsed [])) = false := by
    decide +kernel
  have hshows := Embedded.leasing.shows_eq ⟨_, rfl⟩ haccepts hpos (List.forall_mem_nil _)
  have hshows' := Embedded.leasing.shows_eq ⟨_, rfl⟩ haccepts' hpos' (List.forall_mem_nil _)
  rw [hahead] at hshows
  rw [hgone] at hshows'
  exact ⟨hpos, by decide, haccepts, haccepts', hshows, hshows'⟩

end Gatehouse
