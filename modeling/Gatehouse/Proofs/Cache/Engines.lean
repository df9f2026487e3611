import Gatehouse.Proofs.Cache.Embedded
import Gatehouse.Proofs.Cache.Lease

/-!
# How long the engines of a process keep entries

The engine in memory keeps an entry for exactly its lifetime, and gives up a value whose deadline does not exist. The
embedded engine keeps it until the wall clock shows its deadline in milliseconds, whatever else is on the disk.
-/

namespace Gatehouse

/-! ## In memory -/

namespace Memory

variable {m : Memory} {now nanos : Nat} {key : String}

/-- From now on a key shows something just until a reading of the clock. -/
structure Holds (now : Nat) (m : Memory) (key : String) (nanos : Nat) : Prop where
  isOpen : m.closed = false
  live : ∀ t, now ≤ t → (m.live? t key).isSome = decide (t < nanos)

/-- A value that has been put shows until its lifetime is over, and always if it has none. -/
theorem isSome_live?_of_put_ok {b : Bytes} {lifetime : Option Span}
    (h : (m.perform now (.put key b lifetime)).1 = .returned (.ok ())) (t : Nat) :
    ((m.perform now (.put key b lifetime)).2.live? t key).isSome =
      (lifetime.map fun d => now + d.nanos).all fun deadline => t < deadline := by
  unfold live?
  rw [get?_of_put_ok h, Option.isSome_filter]
  rfl

theorem closed_of_put_ok {b : Bytes} {lifetime : Option Span}
    (h : (m.perform now (.put key b lifetime)).1 = .returned (.ok ())) :
    (m.perform now (.put key b lifetime)).2.closed = false := by
  have hopen : m.closed = false := open_of_perform_ok h
  rw [perform_put_ok h]
  exact hopen

theorem holds_put {b : Bytes} {d : Span} (h : (m.perform now (.put key b (some d))).1 = .returned (.ok ())) :
    Holds now (m.perform now (.put key b (some d))).2 key (now + d.nanos) :=
  ⟨closed_of_put_ok h, fun t _ => isSome_live?_of_put_ok h t⟩

theorem Holds.has (h : Holds now m key nanos) :
    (m.perform now (.has key)).1 = .returned (.ok (decide (now < nanos))) := by
  rw [perform_eq_respond h.isOpen]
  simp only [respond, h.live now (Nat.le_refl now)]

/-- A call that leaves a key alone does not change what it shows. -/
theorem Holds.perform (h : Holds now m key nanos) {c : EngineCall} (hc : Outside (· = key) c) :
    Holds now (m.perform now c).2 key nanos := by
  have halike : Alike (· = key) now (m.perform now c).2 m := Alike.frame m now hc
  refine ⟨halike.closed_eq.symm.trans h.isOpen, fun t ht => ?_⟩
  rw [← halike.live?_eq key rfl t ht]
  exact h.live t ht

/-- An open engine takes a value that has a stored form, if the deadline of its lifetime exists. -/
theorem accepts {clocks : Clocks} {p : Deposit} {b : Bytes} (hopen : m.closed = false)
    (hencode : Json.Encode.encode p.value = .ok b) (hpos : 0 < p.lifetime.nanos)
    (hdeadline : (deadline? clocks.monotonic p.lifetime).isSome = true) :
    Backend.engine.Accepts clocks (.memory m) p := by
  unfold Backend.Accepts
  rw [Backend.run_call hencode hpos, engine_perform, perform_eq_respond hopen,
    respond_put fun d hd => Option.some.inj hd ▸ hdeadline]
  rfl

/-- In memory an entry lives for as long as the forward clock takes for its lifetime. -/
def leasing : Leasing Backend.engine where
  Kind e := ∃ m, e = .memory m
  expiry clocks d := .forward (clocks.monotonic + d.nanos)
  Holds clocks e key x := ∃ m nanos, e = .memory m ∧ x = .forward nanos ∧ Holds clocks.monotonic m key nanos
  put := by
    rintro clocks _ b d key ⟨m, rfl⟩ h
    exact ⟨_, _, rfl, rfl, holds_put h⟩
  has := by
    rintro clocks _ key _ ⟨m, nanos, rfl, rfl, h⟩
    exact h.has
  perform := by
    rintro clocks _ key _ c ⟨m, nanos, rfl, rfl, h⟩ hc
    exact ⟨_, nanos, rfl, rfl, h.perform hc⟩
  advance := by
    rintro clocks _ key _ d ⟨m, nanos, rfl, rfl, h⟩
    exact ⟨m, nanos, rfl, rfl, h.isOpen, fun t ht => h.live t (Nat.le_trans (Nat.le_add_right _ _) ht)⟩
  maintain := by
    rintro clocks _ key _ w ⟨m, nanos, rfl, rfl, h⟩
    cases w with
    | prune =>
      refine ⟨_, nanos, rfl, rfl, h.isOpen, fun t ht => ?_⟩
      rw [live?_prune ht]
      exact h.live t ht
    | tick =>
      refine ⟨_, nanos, rfl, rfl, (closed_tick m clocks.monotonic).trans h.isOpen, fun t ht => ?_⟩
      rw [live?_tick ht]
      exact h.live t ht
    | reopen => exact ⟨m, nanos, rfl, rfl, h⟩

end Memory

/-! ## On a disk -/

theorem Stored.isExpired_iff {e : Stored} {now : Nat} (h : e.deadline ≠ 0) :
    e.isExpired now = true ↔ e.deadline ≤ now := by
  unfold isExpired
  rw [Bool.and_eq_true, decide_eq_true_eq, decide_eq_true_eq]
  exact and_iff_right h

namespace Embedded

variable {s : Embedded} {now t millis : Nat} {key : String}

/-- Under a key there is an entry with a deadline, or nothing any more once the deadline has come. -/
structure Holds (now : Nat) (s : Embedded) (key : String) (millis : Nat) : Prop where
  isOpen : s.isOpen = true
  expires : millis ≠ 0
  stored : ∀ raw, s.disk.get? (Bytes.ofText key) = some raw → ∃ value, Stored.ofBytes? raw = some ⟨millis, value⟩
  absent : s.disk.get? (Bytes.ofText key) = none → millis ≤ now

/-- A point read leaves the disk as it is, or removes an entry under its own key that has expired. -/
theorem read_disk (disk : Table Bytes Bytes) (now : Nat) (key : String) :
    (read disk now key).2 = disk ∨
      (read disk now key).2 = disk.erase (Bytes.ofText key) ∧
        ∃ raw e, disk.get? (Bytes.ofText key) = some raw ∧ Stored.ofBytes? raw = some e ∧ e.isExpired now = true := by
  unfold read classify
  cases hraw : disk.get? (Bytes.ofText key) with
  | none => exact .inl rfl
  | some raw =>
    cases he : Stored.ofBytes? raw with
    | none =>
      simp only [he]
      exact .inl trivial
    | some e =>
      cases hexpired : e.isExpired now with
      | true =>
        simp only [he, hexpired, if_true]
        exact .inr ⟨if_pos hraw, raw, e, rfl, he, hexpired⟩
      | false =>
        simp only [he, hexpired, Bool.false_eq_true, if_false]
        exact .inl trivial

/-- A call that leaves a key alone leaves its octets, or removes those of an entry that has expired. -/
theorem get?_respond_of_outside (s : Embedded) (now : Nat) {c : EngineCall} (hc : Memory.Outside (· = key) c) :
    (s.respond now c).2.disk.get? (Bytes.ofText key) = s.disk.get? (Bytes.ofText key) ∨
      (s.respond now c).2.disk.get? (Bytes.ofText key) = none ∧
        ∃ raw e, s.disk.get? (Bytes.ofText key) = some raw ∧ Stored.ofBytes? raw = some e ∧ e.isExpired now = true := by
  have hne {key' : String} (hkey : ¬key' = key) : Bytes.ofText key ≠ Bytes.ofText key' :=
    fun heq => hkey (Bytes.ofText_inj.mp heq).symm
  have herase {key' : String} (hkey : ¬key' = key) :
      (s.disk.erase (Bytes.ofText key')).get? (Bytes.ofText key) = s.disk.get? (Bytes.ofText key) := by
    rw [Table.get?_erase, if_neg (hne hkey)]
  have hread (key' : String) : (read s.disk now key').2.get? (Bytes.ofText key) = s.disk.get? (Bytes.ofText key) ∨
      (read s.disk now key').2.get? (Bytes.ofText key) = none ∧
        ∃ raw e, s.disk.get? (Bytes.ofText key) = some raw ∧ Stored.ofBytes? raw = some e ∧ e.isExpired now = true := by
    rcases read_disk s.disk now key' with heq | ⟨heq, raw, e, hraw, he, hexpired⟩
    · exact .inl (congrArg (·.get? (Bytes.ofText key)) heq)
    · rw [heq]
      by_cases hkey : key' = key
      · subst hkey
        exact .inr ⟨by rw [Table.get?_erase, if_pos rfl], raw, e, hraw, he, hexpired⟩
      · exact .inl (herase hkey)
  cases c with
  | has key' => exact hread key'
  | fetch key' => exact hread key'
  | remaining key' => exact hread key'
  | put key' value lifetime =>
    refine .inl ?_
    simp only [respond]
    rw [Table.get?_insert, if_neg (hne hc)]
  | delete key' => exact .inl (herase hc)
  | take key' =>
    simp only [respond]
    split
    · exact .inl rfl
    · exact .inl (herase hc)
  | keys stem => exact .inl rfl
  | entries stem => exact .inl rfl
  | flush => exact hc.elim
  | close => exact hc.elim

theorem isOpen_respond_of_outside (h : s.isOpen = true) {c : EngineCall} (hc : Memory.Outside (· = key) c) :
    (s.respond now c).2.isOpen = true := by
  rw [isOpen_respond, h, Bool.true_and]
  refine decide_eq_true ?_
  rintro rfl
  exact hc

namespace Holds

theorem has (h : Holds now s key millis) : (s.perform now (.has key)).1 = .ok (decide (now < millis)) := by
  rw [perform_of_open now _ h.isOpen]
  simp only [respond, Embedded.read, classify]
  cases hraw : s.disk.get? (Bytes.ofText key) with
  | none =>
    have hgone : ¬now < millis := Nat.not_lt.mpr (h.absent hraw)
    rw [decide_eq_false hgone]
    rfl
  | some raw =>
    obtain ⟨value, hvalue⟩ := h.stored raw hraw
    have hexpired : (⟨millis, value⟩ : Stored).isExpired now = true ↔ millis ≤ now := Stored.isExpired_iff h.expires
    simp only [hvalue]
    by_cases hgone : millis ≤ now
    · rw [if_pos (hexpired.mpr hgone), decide_eq_false (Nat.not_lt.mpr hgone)]
      rfl
    · rw [if_neg (mt hexpired.mp hgone), decide_eq_true (Nat.lt_of_not_le hgone)]
      rfl

/-- A call that leaves a key alone leaves what is under it until its deadline. -/
theorem perform (h : Holds now s key millis) {c : EngineCall} (hc : Memory.Outside (· = key) c) :
    Holds now (s.perform now c).2 key millis := by
  rw [perform_of_open now c h.isOpen]
  have hopen : (s.respond now c).2.isOpen = true := isOpen_respond_of_outside h.isOpen hc
  rcases get?_respond_of_outside s now hc with hsame | ⟨hgone, raw, e, hraw, he, hexpired⟩
  · exact ⟨hopen, h.expires, fun raw hraw => h.stored raw (hsame ▸ hraw), fun hnone => h.absent (hsame ▸ hnone)⟩
  · refine ⟨hopen, h.expires, fun raw' hraw' => ?_, fun _ => ?_⟩
    · cases hgone.symm.trans hraw'
    · obtain ⟨value, hvalue⟩ := h.stored raw hraw
      obtain rfl := Option.some.inj (hvalue.symm.trans he)
      exact (Stored.isExpired_iff h.expires).mp hexpired

theorem later (h : Holds now s key millis) (hle : now ≤ t) : Holds t s key millis :=
  ⟨h.isOpen, h.expires, h.stored, fun hnone => Nat.le_trans (h.absent hnone) hle⟩

end Holds

/-- A value that is put for a lifetime is there until its deadline. -/
theorem holds_put {b : Bytes} {d : Span} (h : (s.perform now (.put key b (some d))).1 = .ok ()) :
    Holds now (s.perform now (.put key b (some d))).2 key (Stored.deadlineAt now (some d)) := by
  have hexpires : Stored.deadlineAt now (some d) ≠ 0 := Nat.ne_of_gt (Nat.le_max_left 1 _)
  cases hopen : s.isOpen with
  | false =>
    have hclosed : ¬s.isOpen = true := by simp [hopen]
    unfold perform at h
    rw [if_neg hclosed] at h
    cases h
  | true =>
    have hget : (s.disk.insert (Bytes.ofText key) (Stored.pack now b (some d))).get? (Bytes.ofText key) =
        some (Stored.pack now b (some d)) := by
      rw [Table.get?_insert, if_pos rfl]
    rw [perform_of_open now _ hopen]
    refine ⟨hopen, hexpires, fun raw hraw => ⟨b, ?_⟩, fun hnone => ?_⟩
    · obtain rfl := Option.some.inj (hget.symm.trans hraw)
      exact Stored.ofBytes?_toBytes (Stored.deadlineAt_le now (some d))
    · cases hget.symm.trans hnone

/-- An open engine takes every value that has a stored form, whatever its lifetime. -/
theorem accepts {clocks : Clocks} {p : Deposit} {b : Bytes} (hopen : s.isOpen = true)
    (hencode : Json.Encode.encode p.value = .ok b) (hpos : 0 < p.lifetime.nanos) :
    Backend.engine.Accepts clocks (.embedded s) p := by
  unfold Backend.Accepts
  rw [Backend.run_call hencode hpos, engine_perform, perform_of_open _ _ hopen]
  rfl

/-- On a disk an entry lives until the wall clock shows its deadline. -/
def leasing : Leasing Backend.engine where
  Kind e := ∃ s, e = .embedded s
  expiry clocks d := .wall (Stored.deadlineAt clocks.unixMillis (some d))
  Holds clocks e key x := ∃ s millis, e = .embedded s ∧ x = .wall millis ∧ Holds clocks.unixMillis s key millis
  put := by
    rintro clocks _ b d key ⟨s, rfl⟩ h
    exact ⟨_, _, rfl, rfl, holds_put (Outcome.returned.inj h)⟩
  has := by
    rintro clocks _ key _ ⟨s, millis, rfl, rfl, h⟩
    exact congrArg Outcome.returned h.has
  perform := by
    rintro clocks _ key _ c ⟨s, millis, rfl, rfl, h⟩ hc
    exact ⟨_, millis, rfl, rfl, h.perform hc⟩
  advance := by
    rintro clocks _ key _ d ⟨s, millis, rfl, rfl, h⟩
    exact ⟨s, millis, rfl, rfl, h.later (Clocks.unixMillis_le_advance clocks d)⟩
  maintain := by
    rintro clocks _ key _ w ⟨s, millis, rfl, rfl, h⟩
    cases w with
    | prune => exact ⟨s, millis, rfl, rfl, h⟩
    | tick => exact ⟨s, millis, rfl, rfl, h⟩
    | reopen => exact ⟨s, millis, congrArg Engine.embedded (restart_eq _ s), rfl, h⟩

end Embedded

end Gatehouse
