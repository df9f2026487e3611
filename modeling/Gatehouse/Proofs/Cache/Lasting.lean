import Gatehouse.Proofs.Cache.Engines
import Gatehouse.Proofs.Server.Lease

/-!
# Entries that never expire

What is put for ever stays on each of the three engines as long as nobody writes its key again, whatever else is asked
of the cache and however the clocks move on. So of everything that is put, for a lifetime or for ever, the clocks tell
whether it is there (`Lasting.has_after_put`).
-/

namespace Gatehouse

/-- A kind of states of an engine in which what is put for a lifetime is there until it is to go, and what is put for
ever stays. -/
structure Lasting {σ : Type} (B : Backend σ) extends Leasing B where
  Stays : Clocks → σ → String → Prop
  put_stays : ∀ {clocks s b} (key : String), Kind s →
    (B.perform clocks s (.put key b none)).1 = .returned (.ok ()) →
    Stays clocks (B.perform clocks s (.put key b none)).2 key
  foretells_stays : ∀ key, B.Foretells key (fun _ => true) fun clocks s => Stays clocks s key

/-- What is put is there until its lifetime is over, and always if it has none. -/
theorem Lasting.has_after_put {σ : Type} {B : Backend σ} (L : Lasting B) {clocks : Clocks} {s : σ} {key : String}
    {b : Bytes} {lifetime : Option Span} {steps : List CacheStep} (hs : L.Kind s)
    (hput : (B.perform clocks s (.put key b lifetime)).1 = .returned (.ok ())) (hsteps : ∀ e ∈ steps, e.Spares key) :
    (B.run (clocks.after steps) (B.after clocks (B.perform clocks s (.put key b lifetime)).2 steps) (.has key)).1 =
      .returned (.ok ((lifetime.map (L.expiry clocks)).all fun x => x.isAhead (clocks.after steps))) := by
  cases lifetime with
  | none => exact (L.foretells_stays key).has_after (L.put_stays key hs hput) hsteps
  | some d => exact (L.foretells key _).has_after (L.put key hs hput) hsteps

/-! ## In memory -/

namespace Memory

variable {m m' : Memory} {now : Nat} {key : String}

/-- From now on a key is there. -/
structure Stays (now : Nat) (m : Memory) (key : String) : Prop where
  isOpen : m.closed = false
  live : ∀ t, now ≤ t → (m.live? t key).isSome = true

theorem Stays.of_alike (h : Stays now m key) (halike : Alike (· = key) now m' m) : Stays now m' key := by
  refine ⟨halike.closed_eq.symm.trans h.isOpen, fun t ht => ?_⟩
  rw [← halike.live?_eq key rfl t ht]
  exact h.live t ht

theorem stays_put {b : Bytes} (h : (m.perform now (.put key b none)).1 = .returned (.ok ())) :
    Stays now (m.perform now (.put key b none)).2 key :=
  ⟨closed_of_put_ok h, fun t _ => isSome_live?_of_put_ok h t⟩

theorem foretells_stays (key : String) :
    Backend.engine.Foretells key (fun _ => true) fun clocks e =>
      ∃ m, e = .memory m ∧ Stays clocks.monotonic m key where
  has := by
    rintro clocks _ ⟨m, rfl, h⟩
    rw [engine_perform, perform_eq_respond h.isOpen]
    simp only [respond, h.live clocks.monotonic (Nat.le_refl _)]
  perform := by
    rintro clocks _ c ⟨m, rfl, h⟩ hc
    exact ⟨_, rfl, h.of_alike (Alike.frame m clocks.monotonic hc)⟩
  advance := by
    rintro clocks _ d ⟨m, rfl, h⟩
    exact ⟨m, rfl, h.isOpen, fun t ht => h.live t (Nat.le_trans (Nat.le_add_right _ _) ht)⟩
  maintain := by
    rintro clocks _ w ⟨m, rfl, h⟩
    cases w with
    | prune => exact ⟨_, rfl, h.of_alike ⟨rfl, rfl, fun _ _ _ ht => (live?_prune ht).symm⟩⟩
    | tick =>
      refine ⟨_, rfl, h.of_alike ⟨(closed_tick m _).symm, (listing_tick m _).symm, fun _ _ _ ht => ?_⟩⟩
      exact (live?_tick ht).symm
    | reopen => exact ⟨m, rfl, h⟩

/-- In memory an entry without a deadline stays. -/
def lasting : Lasting Backend.engine where
  toLeasing := leasing
  Stays clocks e key := ∃ m, e = .memory m ∧ Stays clocks.monotonic m key
  put_stays := by
    rintro clocks _ b key ⟨m, rfl⟩ h
    exact ⟨_, rfl, stays_put h⟩
  foretells_stays := foretells_stays

end Memory

/-! ## On a disk -/

namespace Embedded

variable {s : Embedded} {now : Nat} {key : String}

/-- Under a key there is an entry that never expires. -/
structure Stays (s : Embedded) (key : String) : Prop where
  isOpen : s.isOpen = true
  stored : ∃ raw value, s.disk.get? (Bytes.ofText key) = some raw ∧ Stored.ofBytes? raw = some ⟨0, value⟩

theorem stays_put {b : Bytes} (h : (s.perform now (.put key b none)).1 = .ok ()) :
    Stays (s.perform now (.put key b none)).2 key := by
  cases hopen : s.isOpen with
  | false =>
    have hclosed : ¬s.isOpen = true := by simp [hopen]
    unfold perform at h
    rw [if_neg hclosed] at h
    cases h
  | true =>
    rw [perform_of_open now _ hopen]
    refine ⟨hopen, Stored.pack now b none, b, ?_, Stored.ofBytes?_toBytes (Stored.deadlineAt_le now none)⟩
    simp only [respond]
    rw [Table.get?_insert, if_pos rfl]

theorem Stays.has (h : Stays s key) : (s.perform now (.has key)).1 = .ok true := by
  obtain ⟨raw, value, hraw, hvalue⟩ := h.stored
  rw [perform_of_open now _ h.isOpen]
  simp only [respond, Embedded.read, classify, hraw, hvalue]
  rfl

theorem Stays.perform (h : Stays s key) {c : EngineCall} (hc : Memory.Outside (· = key) c) :
    Stays (s.perform now c).2 key := by
  obtain ⟨raw, value, hraw, hvalue⟩ := h.stored
  rw [perform_of_open now c h.isOpen]
  refine ⟨isOpen_respond_of_outside h.isOpen hc, raw, value, ?_, hvalue⟩
  rcases get?_respond_of_outside s now hc with hsame | ⟨-, raw', e, hraw', he, hexpired⟩
  · exact hsame.trans hraw
  · -- Only an entry with a deadline is ever removed.
    obtain rfl := Option.some.inj (hraw.symm.trans hraw')
    obtain rfl := Option.some.inj (hvalue.symm.trans he)
    cases hexpired

theorem foretells_stays (key : String) :
    Backend.engine.Foretells key (fun _ => true) fun _ e => ∃ s, e = .embedded s ∧ Stays s key where
  has := by
    rintro clocks _ ⟨s, rfl, h⟩
    exact congrArg Outcome.returned h.has
  perform := by
    rintro clocks _ c ⟨s, rfl, h⟩ hc
    exact ⟨_, rfl, h.perform hc⟩
  advance _ h := h
  maintain := by
    rintro clocks _ w ⟨s, rfl, h⟩
    cases w with
    | prune => exact ⟨s, rfl, h⟩
    | tick => exact ⟨s, rfl, h⟩
    | reopen => exact ⟨s, congrArg Engine.embedded (restart_eq _ s), h⟩

/-- On a disk an entry with a deadline of zero stays. -/
def lasting : Lasting Backend.engine where
  toLeasing := leasing
  Stays _ e key := ∃ s, e = .embedded s ∧ Stays s key
  put_stays := by
    rintro clocks _ b key ⟨s, rfl⟩ h
    exact ⟨_, rfl, stays_put (Outcome.returned.inj h)⟩
  foretells_stays := foretells_stays

end Embedded

/-! ## At a server -/

namespace Server

variable {σ : Type} {S : Server σ} {r : Session σ} {clocks : Clocks} {now t : Nat} {key : String}

/-- Under a key there is an entry without a deadline. -/
structure Stays (S : Server σ) (now : Nat) (r : Session σ) (key : String) : Prop where
  isOpen : r.isOpen = true
  sound : S.Sound r.far
  entry : ∃ b, S.database now r.far (Bytes.ofText key) = some ⟨b, none⟩

theorem stays_put (hS : S.Documented) (hs : S.Sound r.far) {b : Bytes}
    (h : (S.backend.perform clocks r (.put key b none)).1 = .returned (.ok ())) :
    S.Stays clocks.unixMillis (S.backend.perform clocks r (.put key b none)).2 key := by
  cases hopen : r.isOpen with
  | false =>
    have hclosed : ¬r.isOpen = true := by simp [hopen]
    unfold backend at h
    simp only at h
    rw [if_neg hclosed] at h
    cases h
  | true =>
    have hproper : (Command.set key b none).Proper clocks.unixMillis := fun _ hn => absurd hn (Option.not_mem_none _)
    obtain ⟨far, hask, hsound, hdatabase⟩ := Client.ask_anything r.client hS hs clocks.unixMillis hproper
    rw [perform_of_open hopen]
    simp only [Client.perform, Client.settled, Option.map_none, hask]
    exact ⟨rfl, hsound, b, (congrFun hdatabase _).trans (if_pos rfl)⟩

/-- What has no deadline is still there later. -/
theorem Stays.later (hS : S.Documented) (h : S.Stays now r key) (hle : now ≤ t) : S.Stays t r key := by
  obtain ⟨b, hb⟩ := h.entry
  refine ⟨h.isOpen, h.sound, b, ?_⟩
  rw [hS.expiry h.sound hle, hb]
  rfl

theorem foretells_stays (hS : S.Documented) (hsteady : S.Steady) (key : String) :
    S.backend.Foretells key (fun _ => true) fun clocks r => S.Stays clocks.unixMillis r key where
  has := by
    intro clocks r h
    obtain ⟨b, hb⟩ := h.entry
    rw [perform_has hS h.isOpen h.sound, hb]
    rfl
  perform := by
    intro clocks r c h hc
    obtain ⟨hopen, hkeeps⟩ := perform_outside hS hsteady h.isOpen h.sound hc
    obtain ⟨b, hb⟩ := h.entry
    exact ⟨hopen, hkeeps.sound, b, hkeeps.entry.trans hb⟩
  advance d h := h.later hS (Clocks.unixMillis_le_advance _ d)
  maintain _ h := h

/-- At a server an entry without a deadline stays. -/
def lasting (hS : S.Documented) (hsteady : S.Steady) : Lasting S.backend where
  toLeasing := leasing hS hsteady
  Stays clocks r key := S.Stays clocks.unixMillis r key
  put_stays _ hs h := stays_put hS hs h
  foretells_stays := foretells_stays hS hsteady

end Server

end Gatehouse
