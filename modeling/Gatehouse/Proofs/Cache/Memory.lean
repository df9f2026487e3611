import Gatehouse.Cache.Engine
import Gatehouse.Proofs.Cache.Refinement
import Gatehouse.Proofs.Table

/-!
# The engine in memory stands for the map

Expired entries stay in the engine until something removes them, and a sweep may come at any time. Neither can be seen:
what the engine shows at a time is its entries without the expired ones, and that is what every answer is told by.
-/

namespace Gatehouse

/-! ## Engines of a service -/

/-- Removes the expired entries of an engine in memory. -/
def Engine.prune (clocks : Clocks) : Engine → Engine
  | memory m => memory (m.prune clocks.monotonic)
  | e => e

/-- Closes and opens again the store of an embedded engine that is open and kept on disk. -/
def Embedded.restart (nowMillis : Nat) (s : Embedded) : Embedded :=
  if s.isOpen && !s.temporary then
    match (s.perform nowMillis .close).2.reopen with
    | .ok s' => s'
    | .error _ => s
  else s

/-- The engines of a service. -/
def Backend.engine : Backend Engine where
  perform clocks e c := e.perform clocks c
  maintain clocks w e :=
    match w, e with
    | .prune, e => e.prune clocks
    | .tick, e => e.tick clocks
    | .reopen, .embedded s => .embedded (s.restart clocks.unixMillis)
    | .reopen, e => e

namespace Memory

/-! ## What an engine in memory shows -/

/-- The slot of an entry. -/
def Entry.slot (e : Entry) : Slot := ⟨e.value, e.deadline⟩

/-- The slots of all entries, expired ones included. -/
def slots (m : Memory) : Contents := fun k => (m.entries.get? k).map Entry.slot

variable {m : Memory} {now : Nat} {key stem : String}

theorem presentAt_slots : m.slots.presentAt now key = (m.live? now key).map Entry.slot := by
  unfold Contents.presentAt slots live?
  cases m.entries.get? key with
  | none => rfl
  | some e =>
    rw [Option.map_some, Option.filter_some, Option.filter_some]
    change (if e.isLive now = true then some e.slot else none) = _
    split <;> rfl

theorem isSome_presentAt_slots : (m.slots.presentAt now key).isSome = (m.live? now key).isSome := by
  rw [presentAt_slots, Option.isSome_map]

theorem mem_liveUnder {e : Entry} :
    (key, e) ∈ m.liveUnder now stem ↔ startsWith stem key = true ∧ m.live? now key = some e := by
  unfold liveUnder live?
  rw [(m.listing.perm _).mem_iff, List.mem_filter, Table.mem_entries_iff, Bool.and_eq_true, Option.filter_eq_some_iff]
  exact and_left_comm

/-- A scan lists no key twice. -/
theorem nodup_keys_liveUnder (m : Memory) (now : Nat) (stem : String) : ((m.liveUnder now stem).map Prod.fst).Nodup :=
  ((m.listing.perm _).map Prod.fst).nodup_iff.mpr (Table.nodup_of_ascending (m.entries.ascending.filter _))

/-- What a scan lists hangs on what is live under its text, and on the order of the engine. -/
theorem liveUnder_congr {m' : Memory} (hlisting : m'.listing = m.listing)
    (h : ∀ key, startsWith stem key = true → m'.live? now key = m.live? now key) :
    m'.liveUnder now stem = m.liveUnder now stem := by
  have hmem (m : Memory) (e : String × Entry) :
      e ∈ m.entries.entries.filter (fun e => startsWith stem e.1 && e.2.isLive now) ↔
        startsWith stem e.1 = true ∧ m.live? now e.1 = some e.2 :=
    (m.listing.perm _).mem_iff.symm.trans mem_liveUnder
  unfold liveUnder
  rw [hlisting]
  refine congrArg m.listing.arrange ?_
  refine Table.eq_of_ascending (m'.entries.ascending.filter _) (m.entries.ascending.filter _) fun e => ?_
  rw [hmem, hmem]
  exact and_congr_right fun hkey => by rw [h e.1 hkey]

/-- A scan shows every live entry under its text once. -/
theorem lists_liveUnder (m : Memory) (now : Nat) (stem : String) :
    (m.slots.presentAt now).Lists .any stem ((m.liveUnder now stem).map fun e => (e.1, e.2.value)) := by
  refine ⟨?_, trivial, fun k b => ?_⟩
  · rw [List.map_map]
    exact m.nodup_keys_liveUnder now stem
  · constructor
    · intro h
      obtain ⟨⟨k', e⟩, he, heq⟩ := List.mem_map.mp h
      obtain ⟨rfl, rfl⟩ := Prod.mk.inj heq
      obtain ⟨hstem, hlive⟩ := mem_liveUnder.mp he
      exact ⟨hstem, e.slot, by rw [presentAt_slots, hlive]; rfl, rfl⟩
    · rintro ⟨hstem, slot, hslot, rfl⟩
      rw [presentAt_slots] at hslot
      obtain ⟨e, he, rfl⟩ := Option.map_eq_some_iff.mp hslot
      exact List.mem_map.mpr ⟨(k, e), mem_liveUnder.mpr ⟨hstem, he⟩, rfl⟩

theorem slots_insert (m : Memory) (key : String) (e : Entry) :
    ({ m with entries := m.entries.insert key e } : Memory).slots = m.slots.set key (some e.slot) := by
  funext k
  unfold slots Contents.set
  rw [Table.get?_insert]
  split <;> rfl

theorem slots_erase (m : Memory) (key : String) :
    ({ m with entries := m.entries.erase key } : Memory).slots = m.slots.set key none := by
  funext k
  unfold slots Contents.set
  rw [Table.get?_erase]
  split <;> rfl

/-- Sweeping changes nothing that is present. -/
theorem presentAt_prune : (m.prune now).slots.presentAt now = m.slots.presentAt now := by
  funext k
  rw [presentAt_slots, presentAt_slots]
  unfold live? prune
  rw [Table.get?_filter, Option.filter_filter]
  simp

/-! ## Calls -/

/-- The lifetimes whose deadlines exist. -/
def terms : Terms := ⟨fun clocks d => (deadline? clocks.monotonic d).isSome = true, fun _ => True⟩

/-- A deadline that exists is the lifetime after now. -/
theorem eq_of_deadline? {d : Nat} {lifetime : Span} (h : deadline? now lifetime = some d) :
    d = now + lifetime.nanos := by
  unfold deadline? at h
  split at h
  · exact (Option.some.inj h).symm
  · cases h

/-- What setting a value does, if its deadline exists. -/
theorem respond_put {value : Bytes} {lifetime : Option Span}
    (h : ∀ d, lifetime = some d → (deadline? now d).isSome = true) :
    m.respond now (.put key value lifetime) =
      (.returned (.ok ()),
        { m with entries := m.entries.insert key ⟨value, lifetime.map fun d => now + d.nanos⟩ }) := by
  cases lifetime with
  | none => rfl
  | some d =>
    obtain ⟨deadline, hdeadline⟩ := Option.isSome_iff_exists.mp (h d rfl)
    simp only [respond, hdeadline, eq_of_deadline? hdeadline, Option.map_some]

/-- Setting a value is abandoned, if the deadline of its lifetime does not exist. -/
theorem respond_put_of_overflow {value : Bytes} {lifetime : Option Span}
    (h : ¬∀ d, lifetime = some d → (deadline? now d).isSome = true) :
    m.respond now (.put key value lifetime) = (.abandoned, m) := by
  cases lifetime with
  | none => exact absurd (fun _ hd => nomatch hd) h
  | some d =>
    have hnone : deadline? now d = none := by
      refine Option.not_isSome_iff_eq_none.mp fun hsome => h fun d' hd' => ?_
      cases hd'
      exact hsome
    simp only [respond, hnone]

/-- An engine that is open answers every call. -/
theorem perform_eq_respond {m : Memory} (h : m.closed = false) (now : Nat) (c : EngineCall) :
    m.perform now c = m.respond now c := by
  unfold perform
  rw [h]
  rfl

/-- An engine that has answered a call without an error was open. -/
theorem open_of_perform_ok {a : c.Reply} (h : (m.perform now c).1 = .returned (.ok a)) : m.closed = false := by
  cases hclosed : m.closed with
  | false => rfl
  | true =>
    unfold perform at h
    rw [if_pos hclosed] at h
    cases h

/-- A value that has been set is under its key, with the deadline of its lifetime. -/
theorem perform_put_ok {value : Bytes} {lifetime : Option Span}
    (h : (m.perform now (.put key value lifetime)).1 = .returned (.ok ())) :
    (m.perform now (.put key value lifetime)).2 =
      { m with entries := m.entries.insert key ⟨value, lifetime.map fun d => now + d.nanos⟩ } := by
  have hopen := open_of_perform_ok h
  rw [perform_eq_respond hopen] at h ⊢
  by_cases hdeadline : ∀ d, lifetime = some d → (deadline? now d).isSome = true
  · rw [respond_put hdeadline]
  · rw [respond_put_of_overflow hdeadline] at h
    cases h

theorem get?_of_put_ok {value : Bytes} {lifetime : Option Span}
    (h : (m.perform now (.put key value lifetime)).1 = .returned (.ok ())) :
    (m.perform now (.put key value lifetime)).2.entries.get? key =
      some ⟨value, lifetime.map fun d => now + d.nanos⟩ := by
  rw [perform_put_ok h, Table.get?_insert, if_pos rfl]

/-- What becomes of an engine at a call. -/
inductive Becomes (now : Nat) (m : Memory) : EngineCall → Memory → Prop where
  | same (c : EngineCall) : Becomes now m c m
  | inserted (key : String) (value : Bytes) (lifetime : Option Span) :
      Becomes now m (.put key value lifetime)
        { m with entries := m.entries.insert key ⟨value, lifetime.map fun d => now + d.nanos⟩ }
  | deleted (key : String) : Becomes now m (.delete key) { m with entries := m.entries.erase key }
  | taken (key : String) : Becomes now m (.take key) { m with entries := m.entries.erase key }
  | flushed : Becomes now m .flush { m with entries := Table.empty }
  | closed : Becomes now m .close { m with entries := Table.empty, closed := true }

theorem becomes_perform (m : Memory) (now : Nat) (c : EngineCall) : m.Becomes now c (m.perform now c).2 := by
  unfold perform
  split
  · exact .same c
  · cases c with
    | put key value lifetime =>
      cases lifetime with
      | none => exact .inserted key value none
      | some d =>
        simp only [respond]
        split
        · rename_i deadline hdeadline
          rw [eq_of_deadline? hdeadline]
          exact .inserted key value (some d)
        · exact .same _
    | delete key => exact .deleted key
    | take key => exact .taken key
    | flush => exact .flushed
    | close => exact .closed
    | _ => exact .same _

/-- A sweep removes the expired entries, or none. -/
theorem entries_tick (m : Memory) (now : Nat) :
    (m.tick now).entries = m.entries ∨ (m.tick now).entries = (m.prune now).entries := by
  unfold tick
  split
  · exact .inl rfl
  · split
    · split
      · exact .inl rfl
      · exact .inr rfl
    · exact .inl rfl

/-- An entry that is live outlasts the removal of those that are not. -/
theorem get?_prune_of_isLive {e : Entry} (h : m.entries.get? key = some e) (hlive : e.isLive now = true) :
    (m.prune now).entries.get? key = some e := by
  unfold prune
  rw [Table.get?_filter, h]
  exact Option.filter_some_pos hlive

theorem get?_tick_of_isLive {e : Entry} (h : m.entries.get? key = some e) (hlive : e.isLive now = true) :
    (m.tick now).entries.get? key = some e := by
  rcases m.entries_tick now with heq | heq
  · rw [heq]
    exact h
  · rw [heq]
    exact get?_prune_of_isLive h hlive

theorem closed_tick (m : Memory) (now : Nat) : (m.tick now).closed = m.closed := by
  unfold tick
  split
  · rfl
  · split
    · split <;> rfl
    · rfl

theorem listing_tick (m : Memory) (now : Nat) : (m.tick now).listing = m.listing := by
  unfold tick
  split
  · rfl
  · split
    · split <;> rfl
    · rfl

variable {clocks : Clocks} {c : EngineCall}

/-- Every call is answered by what the engine shows. -/
theorem respond_replies (hc : ∀ key b d, c = .put key b (some d) → (deadline? now d).isSome = true) :
    ∃ r, (m.respond now c).1 = .returned r ∧ (m.slots.presentAt now).Replies .any now c r := by
  cases c with
  | has key => exact ⟨_, rfl, congrArg _ isSome_presentAt_slots.symm⟩
  | fetch key =>
    refine ⟨_, rfl, ?_⟩
    unfold Contents.Replies
    simp only [presentAt_slots]
    cases m.live? now key <;> rfl
  | put key b lifetime =>
    rw [respond_put fun d hd => hc key b d (hd ▸ rfl)]
    exact ⟨_, rfl, rfl⟩
  | delete key => exact ⟨_, rfl, rfl⟩
  | take key => exact ⟨_, rfl, congrArg _ isSome_presentAt_slots.symm⟩
  | keys stem =>
    refine ⟨_, rfl, _, lists_liveUnder m now stem, ?_⟩
    rw [List.map_map]
    rfl
  | entries stem => exact ⟨_, rfl, _, lists_liveUnder m now stem, rfl⟩
  | remaining key =>
    refine ⟨_, rfl, ?_⟩
    unfold Contents.Replies
    simp only [presentAt_slots]
    cases m.live? now key <;> rfl
  | flush => exact ⟨_, rfl, rfl⟩
  | close => exact ⟨_, rfl, rfl⟩

/-- What becomes of the entries at a call. -/
theorem slots_respond (hc : ∀ key b d, c = .put key b (some d) → (deadline? now d).isSome = true)
    (hclose : c ≠ .close) : (m.respond now c).2.slots = m.slots.after now c := by
  cases c with
  | put key b lifetime =>
    rw [respond_put fun d hd => hc key b d (hd ▸ rfl)]
    exact slots_insert m key _
  | delete key => exact slots_erase m key
  | take key => exact slots_erase m key
  | close => exact absurd rfl hclose
  | _ => rfl

theorem closed_respond : (m.respond now c).2.closed = (m.closed || decide (c = .close)) := by
  cases c with
  | put key b lifetime =>
    cases lifetime with
    | none => simp [respond]
    | some d =>
      simp only [respond]
      split <;> simp
  | _ => simp [respond]

/-- What can be seen of an engine in memory. -/
def view : View Engine where
  isOpen
    | .memory m => !m.closed
    | _ => true
  contents clocks
    | .memory m => m.slots.presentAt clocks.monotonic
    | _ => fun _ => none
  Sound _ e := ∃ m, e = .memory m

theorem engine_perform (m : Memory) :
    Backend.engine.perform clocks (.memory m) c =
      ((m.perform clocks.monotonic c).1, .memory (m.perform clocks.monotonic c).2) := rfl

theorem perform_of_open (h : view.isOpen (.memory m) = true) : m.perform now c = m.respond now c :=
  perform_eq_respond ((Bool.not_eq_true' _).mp h) now c

/-- Neither the sweep nor its times can be seen. -/
theorem maintain_unseen (clocks : Clocks) (w : Maintenance) (m : Memory) :
    ∃ m' : Memory, Backend.engine.maintain clocks w (.memory m) = .memory m' ∧ m'.closed = m.closed ∧
      m'.slots.presentAt clocks.monotonic = m.slots.presentAt clocks.monotonic := by
  cases w with
  | prune => exact ⟨_, rfl, rfl, presentAt_prune⟩
  | tick =>
    refine ⟨_, rfl, ?_⟩
    unfold tick
    split
    · exact ⟨rfl, rfl⟩
    · split
      · split
        · exact ⟨rfl, rfl⟩
        · exact ⟨rfl, presentAt_prune⟩
      · exact ⟨rfl, rfl⟩
  | reopen => exact ⟨_, rfl, rfl, rfl⟩

/-- The engine in memory stands for the map, as long as the deadlines exist. -/
theorem faithful : Faithful Backend.engine terms .any view where
  closed := by
    rintro clocks _ c ⟨m, rfl⟩ hshut
    have hclosed : m.closed = true := by simpa [view] using hshut
    rw [engine_perform]
    unfold perform
    rw [if_pos hclosed]
  replies := by
    rintro clocks _ c ⟨m, rfl⟩ hopen hc
    rw [engine_perform, perform_of_open hopen]
    exact respond_replies fun key b d heq => (hc key b d heq).2
  isOpen := by
    rintro clocks _ c ⟨m, rfl⟩ hopen hc
    rw [engine_perform, perform_of_open hopen]
    have hclosed : m.closed = false := by simpa [view] using hopen
    simp [view, closed_respond, hclosed]
  sound := by
    rintro clocks _ c ⟨m, rfl⟩ - -
    exact ⟨(m.perform clocks.monotonic c).2, rfl⟩
  contents := by
    rintro clocks _ c ⟨m, rfl⟩ hopen hc hclose
    rw [engine_perform, perform_of_open hopen]
    have hslots := slots_respond (m := m) (fun key b d heq => (hc key b d heq).2) hclose
    refine (congrArg (fun v => v.presentAt clocks.monotonic) hslots).trans ?_
    exact Contents.presentAt_after _ fun key b d heq => (hc key b d heq).1
  advance := by
    rintro clocks _ d ⟨m, rfl⟩ -
    exact ⟨⟨m, rfl⟩, (Contents.presentAt_presentAt _ (Nat.le_add_right _ _)).symm⟩
  maintain := by
    rintro clocks _ w ⟨m, rfl⟩
    obtain ⟨m', hm', hclosed, hcontents⟩ := maintain_unseen clocks w m
    rw [hm']
    exact ⟨⟨m', rfl⟩, congrArg not hclosed, hcontents⟩

/-- A new engine shows the empty map. -/
theorem shows_start (clocks : Clocks) (interval : Option Span) (listing : Listing (String × Entry)) :
    Faithful.Shows view clocks (.memory { start clocks.monotonic interval with listing }) .empty :=
  ⟨⟨_, rfl⟩, rfl, fun _ => rfl⟩

/-- The cache over a new engine in memory cannot be told from the map with deadlines. After every run of calls of the
cache, with the clocks moving and the engine swept at any points in between, the next call is answered as by the map,
in whatever order the engine lists its entries; and if it is about one key, all other keys are left as they were. -/
theorem answers_as_expiring_map (clocks : Clocks) (interval : Option Span) (listing : Listing (String × Entry))
    (steps : List CacheStep) (c : CacheCall) (h : terms.Met clocks (steps ++ [.call c])) :
    ∃ r, (Backend.engine.run (clocks.after steps)
        (Backend.engine.after clocks (.memory { start clocks.monotonic interval with listing }) steps) c).1 =
          .returned r ∧
      (ExpiringMap.empty.after clocks steps).Answers .any (clocks.after steps).monotonic c r ∧
      ∀ key other, c.key? = some key → other ≠ key → ∀ now,
        ((ExpiringMap.empty.after clocks steps).apply (clocks.after steps) (.call c)).present? now other =
          (ExpiringMap.empty.after clocks steps).present? now other := by
  obtain ⟨r, hr, hanswers⟩ := faithful.answers_after (shows_start clocks interval listing) h
  exact ⟨r, hr, hanswers, fun key other hkey hne now => ExpiringMap.present?_apply_of_ne _ hkey hne now⟩

/-- A run in which one of two values expires after two seconds, and is removed at that moment; a store on disk is closed
and opened again. -/
def sampleRun : List CacheStep :=
  [.call (CacheCall.put String "session:1" "open" (some (Span.ofMillis 2000))),
    .call (CacheCall.put String "session:2" "open" none), .advance (Span.ofMillis 2000), .maintain .tick,
    .maintain .reopen]

theorem answers_as_expiring_map_at_deadline :
    ∃ r, (Backend.engine.run ⟨2000000000, 2000000000⟩
        (Backend.engine.after ⟨0, 0⟩ (.memory (start 0 (some (Span.ofSeconds 1)))) sampleRun)
        (CacheCall.take "session:1")).1 = .returned r ∧
      (ExpiringMap.empty.after ⟨0, 0⟩ sampleRun).Answers .any 2000000000 (CacheCall.take "session:1") r ∧
      ((ExpiringMap.empty.after ⟨0, 0⟩ sampleRun).apply ⟨2000000000, 2000000000⟩
          (.call (CacheCall.take "session:1"))).present? 2000000000 "session:2" =
        (ExpiringMap.empty.after ⟨0, 0⟩ sampleRun).present? 2000000000 "session:2" := by
  obtain ⟨r, hr, hanswers, hothers⟩ :=
    answers_as_expiring_map ⟨0, 0⟩ (some (Span.ofSeconds 1)) .ascending sampleRun (CacheCall.take "session:1")
      ⟨fun _ => rfl, trivial, trivial, trivial, trivial, trivial, trivial⟩
  exact ⟨r, hr, hanswers, hothers "session:1" "session:2" rfl (by decide) 2000000000⟩

end Memory

end Gatehouse
