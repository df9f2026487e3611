import Gatehouse.Proofs.Cache.Memory

/-!
# The sweep bounds what has expired

An engine in memory that is swept at every multiple of an interval may hold entries that have expired, but none that did
so an interval ago. Between two steps the next time of the sweep is still to come, and it is no later than an interval
after the deadline of any entry: an entry that was there at the last sweep was live then, and one that was put since
has its deadline after that. The sweep takes nothing but what has expired.
-/

namespace Gatehouse

/-- One step of an engine that is swept. -/
inductive SweptStep where
  | call (c : EngineCall)
  /-- The expired entries are removed by hand. -/
  | prune
  /-- The clock moves on by whole milliseconds, and the sweep does what it has to. -/
  | advance (millis : Nat)

/-- An engine in memory with the reading of its clock. -/
structure Swept where
  engine : Memory
  now : Nat

namespace Swept

/-- An engine that is swept at every multiple of an interval from now on. -/
def start (now : Nat) (interval : Span) : Swept := ⟨Memory.start now (some interval), now⟩

/-- The engine and its clock after a step. -/
def apply (s : Swept) : SweptStep → Swept
  | .call c => ⟨(s.engine.perform s.now c).2, s.now⟩
  | .prune => ⟨s.engine.prune s.now, s.now⟩
  | .advance millis => ⟨s.engine.tick (s.now + 1000000 * millis), s.now + 1000000 * millis⟩

/-- The engine and its clock after a run. -/
def after (s : Swept) (steps : List SweptStep) : Swept := steps.foldl apply s

end Swept

/-! ## The times of the sweep -/

namespace Memory

variable {m : Memory} {now : Nat} {key : String} {e : Entry}

/-- A timer that has counted whole milliseconds has reached the time that it is. -/
theorem Sweep.reached_eq {s : Sweep} {millis : Nat} (h : now = s.started + 1000000 * millis) : s.reached now = now := by
  rw [reached, h, Nat.add_sub_cancel_left, Nat.mul_div_cancel_left _ (by decide), Nat.mul_comm]

/-- After a sweep the next one is still to come, within an interval. -/
theorem Sweep.due_after {s : Sweep} (hpos : 0 < s.interval) (hreached : s.reached now = now)
    (hdue : s.isDue now = true) : now < (s.after now).due ∧ (s.after now).due ≤ now + s.interval := by
  have hcome : s.due ≤ s.reached now := of_decide_eq_true hdue
  have hdiv := Nat.div_add_mod (now - s.due) s.interval
  have hmod := Nat.mod_lt (now - s.due) hpos
  have hnext : (s.after now).due = s.due + s.interval * ((s.reached now - s.due) / s.interval + 1) := rfl
  rw [hreached, Nat.mul_add_one] at hnext
  omega

theorem tick_of_isDue {s : Sweep} (hsweep : m.sweep = some s) (hdue : s.isDue now = true) (hopen : m.closed = false) :
    m.tick now = { m.prune now with sweep := some (s.after now) } := by
  simp [tick, hsweep, hdue, hopen]

theorem tick_of_not_isDue {s : Sweep} (hsweep : m.sweep = some s) (hdue : s.isDue now = false) : m.tick now = m := by
  simp [tick, hsweep, hdue]

/-! ## What the sweep leaves -/

/-- An engine has no entry that another does not have. -/
def Under (m' m : Memory) : Prop := ∀ key e, m'.entries.get? key = some e → m.entries.get? key = some e

theorem prune_under (m : Memory) (now : Nat) : (m.prune now).Under m := by
  intro key e h
  unfold prune at h
  rw [Table.get?_filter, Option.filter_eq_some_iff] at h
  exact h.1

theorem tick_under (m : Memory) (now : Nat) : (m.tick now).Under m := by
  intro key e h
  rcases m.entries_tick now with heq | heq
  · rwa [heq] at h
  · rw [heq] at h
    exact m.prune_under now key e h

theorem isLive_of_prune (h : (m.prune now).entries.get? key = some e) : e.isLive now = true := by
  unfold prune at h
  rw [Table.get?_filter, Option.filter_eq_some_iff] at h
  exact h.2

theorem Under.entries_eq_empty {m' : Memory} (h : m'.Under m) (hempty : m.entries = Table.empty) :
    m'.entries = Table.empty := by
  refine Table.ext_get? fun key => Option.eq_none_iff_forall_ne_some.mpr fun e he => ?_
  have hget := h key e he
  rw [hempty] at hget
  cases hget

/-- Removing keys adds no entry. -/
theorem erase_under (m : Memory) (key : String) : ({ m with entries := m.entries.erase key } : Memory).Under m := by
  intro key' e h
  rw [Table.get?_erase] at h
  split at h
  · cases h
  · exact h

end Memory

/-! ## The invariant -/

namespace Swept

/-- The clock is whole milliseconds after the start. The next sweep is still to come, and it is at most an interval
after the deadline of every entry. -/
structure Punctual (origin millis : Nat) (s : Swept) : Prop where
  clock : ∃ passed, s.now = origin + 1000000 * passed
  closed : s.engine.closed = true → s.engine.entries = Table.empty
  sweeps : s.engine.closed = false → ∃ due, s.engine.sweep = some ⟨origin, 1000000 * millis, due⟩ ∧
    s.now < due ∧ due ≤ s.now + 1000000 * millis ∧
      ∀ key e d, s.engine.entries.get? key = some e → e.deadline = some d → due ≤ d + 1000000 * millis

variable {origin millis : Nat} {s : Swept}

theorem punctual_start (h : 0 < millis) : Punctual origin millis (start origin (Span.ofMillis millis)) where
  clock := ⟨0, rfl⟩
  closed _ := rfl
  sweeps _ := by
    have hnanos : 1000000 * millis ≠ 0 := by omega
    refine ⟨origin + 1000000 * millis, ?_, ?_, Nat.le_refl _, fun _ _ _ he => nomatch he⟩
    · simp only [start, Memory.start, Span.ofMillis, Option.bind_some, if_neg hnanos, Nat.mul_comm millis]
    · exact Nat.lt_add_of_pos_right (Nat.pos_of_ne_zero hnanos)

/-- What removes entries keeps the sweep as it is. -/
theorem Punctual.of_under (h : s.Punctual origin millis) {m : Memory} (hunder : m.Under s.engine)
    (hclosed : m.closed = s.engine.closed) (hsweep : m.sweep = s.engine.sweep) :
    Punctual origin millis ⟨m, s.now⟩ where
  clock := h.clock
  closed hm := hunder.entries_eq_empty (h.closed (hclosed ▸ hm))
  sweeps hm := by
    obtain ⟨due, hdue, hcome, hsoon, hwithin⟩ := h.sweeps (hclosed ▸ hm)
    exact ⟨due, hsweep.trans hdue, hcome, hsoon, fun key e d he => hwithin key e d (hunder key e he)⟩

/-- A value that is put has its deadline no earlier than now, and so after the sweep before the next. -/
theorem Punctual.insert (h : s.Punctual origin millis) (hopen : s.engine.closed = false) (key : String)
    (value : Bytes) (lifetime : Option Span) :
    Punctual origin millis ⟨{ s.engine with
      entries := s.engine.entries.insert key ⟨value, lifetime.map fun d => s.now + d.nanos⟩ }, s.now⟩ where
  clock := h.clock
  closed hclosed := absurd hclosed (Bool.eq_false_iff.mp hopen)
  sweeps _ := by
    obtain ⟨due, hdue, hcome, hsoon, hwithin⟩ := h.sweeps hopen
    refine ⟨due, hdue, hcome, hsoon, fun k e d he hd => ?_⟩
    rw [Table.get?_insert] at he
    split at he
    · obtain rfl := Option.some.inj he
      obtain ⟨span, -, rfl⟩ := Option.map_eq_some_iff.mp hd
      change due ≤ s.now + _ at hsoon
      omega
    · exact hwithin k e d he hd

theorem Punctual.call (h : s.Punctual origin millis) (c : EngineCall) :
    Punctual origin millis (s.apply (.call c)) := by
  cases hclosed : s.engine.closed with
  | true =>
    have hsame : s.apply (.call c) = s := by simp [apply, Memory.perform, hclosed]
    rw [hsame]
    exact h
  | false =>
    have hbecomes := s.engine.becomes_perform s.now c
    unfold apply
    simp only
    generalize (s.engine.perform s.now c).2 = m at hbecomes
    cases hbecomes with
    | same => exact h
    | inserted key value lifetime => exact h.insert hclosed key value lifetime
    | deleted key => exact h.of_under (s.engine.erase_under key) rfl rfl
    | taken key => exact h.of_under (s.engine.erase_under key) rfl rfl
    | flushed => exact h.of_under (fun _ _ he => nomatch he) rfl rfl
    | closed => exact ⟨h.clock, fun _ => rfl, nofun⟩

/-- When the clock has moved, either the next sweep is still to come, or there is one now. What it leaves is live, so
the sweep after it is soon enough. -/
theorem Punctual.advance (h : s.Punctual origin millis) (hpos : 0 < millis) (n : Nat) :
    Punctual origin millis (s.apply (.advance n)) where
  clock := by
    obtain ⟨passed, hpassed⟩ := h.clock
    exact ⟨passed + n, by rw [Nat.mul_add, ← Nat.add_assoc, ← hpassed]; rfl⟩
  closed hclosed := by
    have hbefore : s.engine.closed = true := (s.engine.closed_tick _).symm.trans hclosed
    exact (s.engine.tick_under _).entries_eq_empty (h.closed hbefore)
  sweeps hclosed := by
    have hopen : s.engine.closed = false := (s.engine.closed_tick _).symm.trans hclosed
    obtain ⟨passed, hpassed⟩ := h.clock
    obtain ⟨due, hdue, hcome, hsoon, hwithin⟩ := h.sweeps hopen
    unfold apply
    simp only
    generalize hnow : s.now + 1000000 * n = now
    let sweep : Memory.Sweep := ⟨origin, 1000000 * millis, due⟩
    have hsince : now = sweep.started + 1000000 * (passed + n) := by
      rw [Nat.mul_add, ← Nat.add_assoc, ← hpassed, hnow]
    have hreached : sweep.reached now = now := Memory.Sweep.reached_eq hsince
    cases hisDue : sweep.isDue now with
    | false =>
      rw [Memory.tick_of_not_isDue hdue hisDue]
      have hlater : sweep.reached now < due := Nat.lt_of_not_le (of_decide_eq_false hisDue)
      exact ⟨due, hdue, hreached ▸ hlater, by omega, hwithin⟩
    | true =>
      rw [Memory.tick_of_isDue hdue hisDue hopen]
      obtain ⟨hlater, hnext⟩ := Memory.Sweep.due_after (Nat.mul_pos (by decide) hpos) hreached hisDue
      refine ⟨(sweep.after now).due, rfl, hlater, hnext, fun key e d he hd => ?_⟩
      have hlive := Memory.isLive_of_prune he
      have hbefore : now < d := by simpa [Memory.Entry.isLive, hd] using hlive
      change _ ≤ now + 1000000 * millis at hnext
      omega

theorem Punctual.apply (h : s.Punctual origin millis) (hpos : 0 < millis) (step : SweptStep) :
    Punctual origin millis (s.apply step) := by
  cases step with
  | call c => exact h.call c
  | prune => exact h.of_under (s.engine.prune_under s.now) rfl rfl
  | advance n => exact h.advance hpos n

theorem Punctual.after (h : s.Punctual origin millis) (hpos : 0 < millis) (steps : List SweptStep) :
    Punctual origin millis (s.after steps) := by
  induction steps generalizing s with
  | nil => exact h
  | cons step rest ih => exact ih (h.apply hpos step)

/-- An entry of an engine whose sweep is on time has expired for less than an interval. -/
theorem Punctual.lt_add_interval (h : s.Punctual origin millis) {key : String} {e : Memory.Entry} {d : Nat}
    (he : s.engine.entries.get? key = some e) (hd : e.deadline = some d) : s.now < d + 1000000 * millis := by
  cases hclosed : s.engine.closed with
  | true =>
    rw [h.closed hclosed] at he
    cases he
  | false =>
    obtain ⟨due, -, hcome, -, hwithin⟩ := h.sweeps hclosed
    exact Nat.lt_of_lt_of_le hcome (hwithin key e d he hd)

/-- An engine in memory that is swept at an interval of whole milliseconds, after any run of calls with the clock moving
by whole milliseconds in between. Every entry that is there and has expired did so less than an interval ago; the next
sweep, whenever it comes, takes no entry that is live then; and once the engine is closed no entry is there. -/
theorem sweep_bounds_expired (origin millis : Nat) (hpos : 0 < millis) (steps : List SweptStep) :
    let s := (start origin (Span.ofMillis millis)).after steps
    (∀ key e d, s.engine.entries.get? key = some e → e.deadline = some d → s.now < d + 1000000 * millis) ∧
      (∀ n key e, s.engine.entries.get? key = some e → e.isLive (s.now + 1000000 * n) = true →
        (s.apply (.advance n)).engine.entries.get? key = some e) ∧
      (s.engine.closed = true → s.engine.resident = 0) := by
  intro s
  have hpunctual : s.Punctual origin millis := (punctual_start hpos).after hpos steps
  refine ⟨fun key e d he hd => hpunctual.lt_add_interval he hd, fun n key e he hlive => ?_, fun hclosed => ?_⟩
  · exact Memory.get?_tick_of_isLive he hlive
  · rw [Memory.resident, hpunctual.closed hclosed]
    rfl

/-- A value for a second and one for ever, four seconds after they have been put. -/
def sampleSteps : List SweptStep :=
  [.call (.put "a" [1] (some (Span.ofSeconds 1))), .call (.put "b" [2] none), .advance 4000]

/-- An engine that is started between two milliseconds. The first value is still there between two sweeps five seconds
apart, and the next sweep leaves the second. -/
theorem sweep_bounds_expired_between_sweeps :
    let s := (start 1000000000500000 (Span.ofMillis 5000)).after sampleSteps
    0 < 5000 ∧ s.engine.entries.get? "a" = some ⟨[1], some 1000001000500000⟩ ∧
      s.now < 1000001000500000 + 1000000 * 5000 ∧
        (s.apply (.advance 1000)).engine.entries.get? "b" = some ⟨[2], none⟩ ∧
          (s.engine.closed = true → s.engine.resident = 0) := by
  intro s
  obtain ⟨hbound, hlive, hclosed⟩ := sweep_bounds_expired 1000000000500000 5000 (by decide) sampleSteps
  have ha : s.engine.entries.get? "a" = some ⟨[1], some 1000001000500000⟩ := by decide +kernel
  have hb : s.engine.entries.get? "b" = some ⟨[2], none⟩ := by decide +kernel
  exact ⟨by decide, ha, hbound "a" _ _ ha rfl, hlive 1000 "b" _ hb rfl, hclosed⟩

end Swept

end Gatehouse
