import Gatehouse.Proofs.Cache.Agreement
import Gatehouse.Proofs.Cache.Memory
import Gatehouse.Proofs.Cache.Millis
import Gatehouse.Proofs.Cache.Stored

/-!
# The embedded engine answers like the engine in memory

While both clocks move together by whole milliseconds, the embedded engine stands for the map with deadlines, as the
engine in memory does. Closing and opening a store that is on disk cannot be seen.
-/

namespace Gatehouse

/-! ## Stored deadlines -/

namespace Stored

/-- The deadline of an entry, if it is to expire. -/
def deadline? (e : Stored) : Option Nat := if e.deadline = 0 then none else some e.deadline

/-- The slot of an entry, with its deadline on the forward clock. -/
def slot (clocks : Clocks) (e : Stored) : Slot := Slot.ofWall clocks e.value e.deadline?

variable {clocks : Clocks} {now : Nat} {d : Span} {e : Stored}

theorem all_deadline? (e : Stored) (now : Nat) : (e.deadline?.all fun millis => now < millis) = !e.isExpired now := by
  unfold deadline? isExpired
  by_cases h : e.deadline = 0
  · simp [h]
  · rw [if_neg h, Option.all_some, Bool.eq_iff_iff]
    simp [h]

theorem isPresent_slot (e : Stored) :
    (e.slot clocks).isPresent clocks.monotonic = !e.isExpired clocks.unixMillis := by
  unfold slot
  rw [Slot.isPresent_ofWall, all_deadline?]

theorem remaining_slot (e : Stored) :
    (e.slot clocks).remaining clocks.monotonic = e.remaining clocks.unixMillis := by
  unfold slot remaining
  rw [Slot.remaining_ofWall]
  unfold deadline?
  split <;> rfl

/-- An entry that is written has the deadline of its lifetime. -/
theorem slot_pack {value : Bytes} {lifetime : Option Span}
    (h : ∀ d ∈ lifetime, d.Fits clocks (maxDeadline + 1)) :
    slot clocks ⟨deadlineAt clocks.unixMillis lifetime, value⟩ =
      ⟨value, lifetime.map fun d => clocks.monotonic + d.nanos⟩ := by
  have hdeadline : deadline? ⟨deadlineAt clocks.unixMillis lifetime, value⟩ =
      lifetime.map fun d => clocks.unixMillis + d.millis := by
    cases lifetime with
    | none => rfl
    | some d =>
      have hpos := (h d rfl).millis_pos
      have hbelow := (h d rfl).below
      have hat : deadlineAt clocks.unixMillis (some d) = clocks.unixMillis + d.millis := by
        simp only [deadlineAt, (h d rfl).millisWord_eq (by decide)]
        omega
      have hne : clocks.unixMillis + d.millis ≠ 0 := by omega
      unfold deadline?
      rw [hat, Option.map_some]
      exact if_neg hne
  unfold slot
  rw [hdeadline]
  exact Slot.ofWall_written h

end Stored

namespace Embedded

/-! ## What an embedded engine shows -/

/-- The slots of all entries of a disk, expired ones included. -/
def slots (clocks : Clocks) (disk : Table Bytes Bytes) : Contents := fun k => (stored? disk k).map (Stored.slot clocks)

/-- The deadlines of whole milliseconds that fit a stored entry. -/
def terms : Terms := .whole (Stored.maxDeadline + 1)

variable {clocks : Clocks} {disk : Table Bytes Bytes} {s : Embedded} {c : EngineCall} {key stem : String}

theorem presentAt_slots :
    (slots clocks disk).presentAt clocks.monotonic key =
      (live? disk clocks.unixMillis key).map (Stored.slot clocks) := by
  unfold Contents.presentAt slots live?
  cases stored? disk key with
  | none => rfl
  | some e =>
    rw [Option.map_some, Option.filter_some, Option.filter_some, Stored.isPresent_slot]
    split <;> rfl

theorem isSome_presentAt_slots :
    ((slots clocks disk).presentAt clocks.monotonic key).isSome = (live? disk clocks.unixMillis key).isSome := by
  rw [presentAt_slots, Option.isSome_map]

/-- A scan shows every live entry under its text once, by the octets of the keys. -/
theorem lists_shown (h : AllLegible disk) (clocks : Clocks) (stem : String) :
    ((slots clocks disk).presentAt clocks.monotonic).Lists .ascending stem
      (((disk.entries.filter fun e => (Bytes.ofText stem).isPrefixOf e.1).filterMap (shown clocks.unixMillis)).map
        fun e => (e.1, e.2.value)) := by
  have hascending := shown_ascending h clocks.unixMillis stem
  refine ⟨?_, ?_, fun k b => ?_⟩
  · rw [List.map_map, List.Nodup, List.pairwise_map]
    refine hascending.imp fun {a b} hlt heq => ?_
    exact StrictKey.lt_irrefl _ (congrArg Bytes.ofText heq ▸ hlt)
  · rw [List.map_map]
    exact List.pairwise_map.mpr hascending
  · constructor
    · intro hmem
      obtain ⟨⟨k', e⟩, he, heq⟩ := List.mem_map.mp hmem
      obtain ⟨rfl, rfl⟩ := Prod.mk.inj heq
      obtain ⟨hstem, hlive⟩ := (mem_shown h).mp he
      exact ⟨hstem, e.slot clocks, by rw [presentAt_slots, hlive]; rfl, rfl⟩
    · rintro ⟨hstem, slot, hslot, rfl⟩
      rw [presentAt_slots] at hslot
      obtain ⟨e, he, rfl⟩ := Option.map_eq_some_iff.mp hslot
      exact List.mem_map.mpr ⟨(k, e), (mem_shown h).mpr ⟨hstem, he⟩, rfl⟩

theorem slots_insert {value : Bytes} {lifetime : Option Span}
    (h : ∀ d ∈ lifetime, d.Fits clocks (Stored.maxDeadline + 1)) :
    slots clocks (disk.insert (Bytes.ofText key) (Stored.pack clocks.unixMillis value lifetime)) =
      (slots clocks disk).set key (some ⟨value, lifetime.map fun d => clocks.monotonic + d.nanos⟩) := by
  funext k
  unfold slots Contents.set Stored.pack
  rw [stored?_insert key k (Stored.deadlineAt_le _ _)]
  split
  · exact congrArg _ (Stored.slot_pack h)
  · rfl

theorem slots_erase : slots clocks (disk.erase (Bytes.ofText key)) = (slots clocks disk).set key none := by
  funext k
  unfold slots Contents.set
  rw [stored?_erase]
  split <;> rfl

/-- A point read changes nothing that is present. -/
theorem presentAt_read (h : AllLegible disk) (key : String) :
    (slots clocks (read disk clocks.unixMillis key).2).presentAt clocks.monotonic =
      (slots clocks disk).presentAt clocks.monotonic := by
  funext k
  rw [presentAt_slots, presentAt_slots, live?_read h]

/-! ## Calls -/

/-- Taking a key removes it and tells whether its entry was live. -/
theorem respond_take (h : AllLegible s.disk) (now : Nat) (key : String) :
    (s.respond now (.take key)).1 = .ok (live? s.disk now key).isSome ∧
      ((s.respond now (.take key)).2.disk = s.disk.erase (Bytes.ofText key) ∨
        (s.respond now (.take key)).2.disk = s.disk ∧ stored? s.disk key = none) := by
  unfold live? stored?
  cases hraw : s.disk.get? (Bytes.ofText key) with
  | none =>
    have hrespond : s.respond now (.take key) = (.ok false, s) := by simp only [respond, hraw]
    rw [hrespond]
    exact ⟨rfl, .inr ⟨rfl, rfl⟩⟩
  | some raw =>
    obtain ⟨e, -, he⟩ := h.ofBytes? hraw
    have hrespond : s.respond now (.take key) =
        (.ok !e.isExpired now, { s with disk := s.disk.erase (Bytes.ofText key) }) := by
      simp only [respond, hraw, Stored.parse, he, Except.map]
    rw [hrespond, Option.bind_some, he, Option.filter_some]
    refine ⟨?_, .inl rfl⟩
    cases e.isExpired now <;> rfl

theorem respond_legible (h : AllLegible s.disk) (now : Nat) (c : EngineCall) :
    AllLegible (s.respond now c).2.disk := by
  cases c with
  | has key => exact read_allLegible h now key
  | fetch key => exact read_allLegible h now key
  | put key value lifetime => exact h.insert key (Stored.deadlineAt_le now lifetime)
  | delete key => exact h.erase _
  | take key =>
    rcases (respond_take h now key).2 with heq | ⟨heq, -⟩
    · rw [heq]
      exact h.erase _
    · rw [heq]
      exact h
  | keys stem => exact h
  | entries stem => exact h
  | remaining key => exact read_allLegible h now key
  | flush => exact AllLegible.empty
  | close =>
    simp only [respond]
    split
    · exact AllLegible.empty
    · exact h

/-- Every call is answered by what the engine shows. -/
theorem respond_replies (h : AllLegible s.disk) (c : EngineCall) :
    ((slots clocks s.disk).presentAt clocks.monotonic).Replies .ascending clocks.monotonic c
      (s.respond clocks.unixMillis c).1 := by
  have hread (key : String) := (read_eq h clocks.unixMillis key).1
  cases c with
  | has key =>
    simp only [respond, Contents.Replies, isSome_presentAt_slots, hread]
    rfl
  | fetch key =>
    simp only [respond, Contents.Replies, presentAt_slots, hread]
    cases live? s.disk clocks.unixMillis key <;> rfl
  | put key value lifetime => exact rfl
  | delete key => exact rfl
  | take key =>
    refine (respond_take h clocks.unixMillis key).1.trans ?_
    rw [isSome_presentAt_slots]
  | keys stem =>
    refine ⟨_, lists_shown h clocks stem, ?_⟩
    simp only [respond, scan_eq h, Except.map, List.map_map]
    rfl
  | entries stem =>
    refine ⟨_, lists_shown h clocks stem, ?_⟩
    simp only [respond, scan_eq h, Except.map]
  | remaining key =>
    simp only [respond, Contents.Replies, presentAt_slots, hread]
    cases live? s.disk clocks.unixMillis key with
    | none => rfl
    | some e => exact congrArg _ (Stored.remaining_slot e).symm
  | flush => exact rfl
  | close => exact rfl

/-- What is present after a call. -/
theorem presentAt_respond (h : AllLegible s.disk) (hc : terms.Admits clocks c)
    (hclose : c ≠ .close) :
    (slots clocks (s.respond clocks.unixMillis c).2.disk).presentAt clocks.monotonic =
      ((slots clocks s.disk).presentAt clocks.monotonic).after clocks.monotonic c := by
  rw [← Contents.presentAt_after _ fun key b d heq => (hc key b d heq).1]
  have hslots {v v' : Contents} (heq : v = v') : v.presentAt clocks.monotonic = v'.presentAt clocks.monotonic :=
    heq ▸ rfl
  cases c with
  | has key => exact presentAt_read h key
  | fetch key => exact presentAt_read h key
  | put key value lifetime => exact hslots (slots_insert (Terms.fits_of_admits hc))
  | delete key => exact hslots slots_erase
  | take key =>
    rcases (respond_take h clocks.unixMillis key).2 with heq | ⟨heq, habsent⟩
    · rw [heq, slots_erase]
      rfl
    · rw [heq]
      refine hslots (funext ?_)
      intro k
      simp only [Contents.after, Contents.set, slots]
      split
      · rename_i hk
        rw [hk, habsent]
        rfl
      · rfl
  | keys stem => rfl
  | entries stem => rfl
  | remaining key => exact presentAt_read h key
  | flush => rfl
  | close => exact absurd rfl hclose

theorem isOpen_respond (now : Nat) (c : EngineCall) :
    (s.respond now c).2.isOpen = (s.isOpen && decide (c ≠ .close)) := by
  cases c with
  | take key =>
    simp only [respond]
    split <;> simp
  | _ => simp [respond]

/-! ## Standing for the map -/

/-- What can be seen of an embedded engine. -/
def view : View Engine where
  isOpen
    | .embedded s => s.isOpen
    | _ => true
  contents clocks
    | .embedded s => (slots clocks s.disk).presentAt clocks.monotonic
    | _ => fun _ => none
  Sound clocks e := ∃ s, e = .embedded s ∧ AllLegible s.disk ∧ 0 ≤ clocks.wall

theorem engine_perform (s : Embedded) :
    Backend.engine.perform clocks (.embedded s) c =
      (.returned (s.perform clocks.unixMillis c).1, .embedded (s.perform clocks.unixMillis c).2) := rfl

theorem perform_of_open (now : Nat) (c : EngineCall) (h : s.isOpen = true) : s.perform now c = s.respond now c := by
  unfold perform
  rw [if_pos h]

/-- A store on disk that is closed and opened again is what it was. -/
theorem restart_eq (now : Nat) (s : Embedded) : s.restart now = s := by
  unfold restart
  split
  · rename_i hopen
    obtain ⟨hisOpen, htemporary⟩ := Bool.and_eq_true_iff.mp hopen
    rw [Bool.not_eq_true'] at htemporary
    rw [perform_of_open now .close hisOpen]
    simp only [respond, reopen, htemporary]
    obtain ⟨disk, isOpen, temporary⟩ := s
    cases hisOpen
    cases htemporary
    rfl
  · rfl

theorem presentAt_advance {d : Span} (hclocks : 0 ≤ clocks.wall) (hd : d.IsWhole) :
    (slots (clocks.advance d) disk).presentAt (clocks.advance d).monotonic =
      ((slots clocks disk).presentAt clocks.monotonic).presentAt (clocks.advance d).monotonic := by
  have hle : clocks.monotonic ≤ (clocks.advance d).monotonic := Nat.le_add_right _ _
  rw [Contents.presentAt_presentAt _ hle]
  funext k
  unfold Contents.presentAt slots
  cases stored? disk k with
  | none => rw [Option.map_none, Option.map_none]
  | some e =>
    rw [Option.map_some, Option.map_some]
    exact Slot.filter_ofWall_advance hclocks hd

/-- The embedded engine stands for the map while the clocks move together by whole milliseconds. -/
theorem faithful : Faithful Backend.engine terms .ascending view where
  closed := by
    rintro clocks _ c ⟨s, rfl, -, -⟩ hshut
    have hclosed : s.isOpen = false := hshut
    rw [engine_perform]
    simp [perform, hclosed]
  replies := by
    rintro clocks _ c ⟨s, rfl, hlegible, -⟩ hopen hc
    rw [engine_perform, perform_of_open clocks.unixMillis c hopen]
    exact ⟨_, rfl, respond_replies hlegible c⟩
  isOpen := by
    rintro clocks _ c ⟨s, rfl, -, -⟩ hopen hc
    rw [engine_perform, perform_of_open clocks.unixMillis c hopen]
    refine (isOpen_respond _ c).trans ?_
    rw [show s.isOpen = true from hopen, Bool.true_and]
  sound := by
    rintro clocks _ c ⟨s, rfl, hlegible, hclocks⟩ hopen hc
    rw [engine_perform, perform_of_open clocks.unixMillis c hopen]
    exact ⟨_, rfl, respond_legible hlegible _ c, hclocks⟩
  contents := by
    rintro clocks _ c ⟨s, rfl, hlegible, -⟩ hopen hc hclose
    rw [engine_perform, perform_of_open clocks.unixMillis c hopen]
    exact presentAt_respond hlegible hc hclose
  advance := by
    rintro clocks _ d ⟨s, rfl, hlegible, hclocks⟩ hd
    exact ⟨⟨s, rfl, hlegible, Clocks.wall_advance hclocks d⟩, presentAt_advance hclocks hd⟩
  maintain := by
    rintro clocks _ w ⟨s, rfl, hlegible, hclocks⟩
    have hsame : Backend.engine.maintain clocks w (.embedded s) = .embedded s := by
      cases w with
      | prune => rfl
      | tick => rfl
      | reopen => exact congrArg Engine.embedded (restart_eq _ s)
    rw [hsame]
    exact ⟨⟨s, rfl, hlegible, hclocks⟩, rfl, rfl⟩

/-- A new store shows the empty map. -/
theorem shows_openStore (hclocks : 0 ≤ clocks.wall) (temporary : Bool) :
    Faithful.Shows view clocks (.embedded (openStore Table.empty temporary)) .empty :=
  ⟨⟨_, rfl, AllLegible.empty, hclocks⟩, rfl, fun _ => rfl⟩

/-- The cache over a new embedded engine answers like the cache over a new engine in memory. After every run of calls
of the cache, with the clocks moving together and a store on disk closed and opened again at any points in between, the
next call is answered alike by both, and as the map answers it whose scans take the present slots by ascending keys; the
embedded engine finds no entry corrupt. -/
theorem answers_as_memory (clocks : Clocks) (hclocks : 0 ≤ clocks.wall) (hearly : clocks.IsEarly)
    (interval : Option Span) (listing : Listing (String × Memory.Entry)) (temporary : Bool) (steps : List CacheStep)
    (c : CacheCall) (h : terms.Met clocks (steps ++ [.call c])) :
    ∃ r r', (Backend.engine.run (clocks.after steps)
        (Backend.engine.after clocks (.embedded (openStore Table.empty temporary)) steps) c).1 = .returned r ∧
      (Backend.engine.run (clocks.after steps)
        (Backend.engine.after clocks (.memory { Memory.start clocks.monotonic interval with listing }) steps)
          c).1 = .returned r' ∧
      c.Alike r r' ∧
      (ExpiringMap.empty.after clocks steps).Answers .ascending (clocks.after steps).monotonic c r ∧
      ∀ key, r ≠ .error (.corruptEntry key) := by
  obtain ⟨r, hr, hanswers⟩ := faithful.answers_after (shows_openStore hclocks temporary) h
  obtain ⟨r', hr', hanswers'⟩ :=
    Memory.faithful.answers_after (Memory.shows_start clocks interval listing)
      (Terms.met_memory (by decide) hclocks hearly h)
  exact ⟨r, r', hr, hr', hanswers.alike hanswers', hanswers, hanswers.ne_corrupt⟩

theorem answers_as_memory_after_reopening :
    ∃ r r', (Backend.engine.run ⟨2000000000, 2000000000⟩
        (Backend.engine.after ⟨0, 0⟩ (.embedded (openStore Table.empty false)) Memory.sampleRun)
        (CacheCall.values String "session:")).1 = .returned r ∧
      (Backend.engine.run ⟨2000000000, 2000000000⟩
        (Backend.engine.after ⟨0, 0⟩ (.memory (Memory.start 0 none)) Memory.sampleRun)
        (CacheCall.values String "session:")).1 = .returned r' ∧
      (CacheCall.values String "session:").Alike r r' ∧
      (ExpiringMap.empty.after ⟨0, 0⟩ Memory.sampleRun).Answers .ascending 2000000000
        (CacheCall.values String "session:") r ∧
      ∀ key, r ≠ .error (.corruptEntry key) :=
  answers_as_memory ⟨0, 0⟩ (Int.le_refl 0) (Nat.zero_le _) none .ascending false Memory.sampleRun
    (CacheCall.values String "session:") ⟨fun _ => ⟨rfl, by decide⟩, trivial, rfl, trivial, trivial, trivial, trivial⟩

end Embedded

end Gatehouse
