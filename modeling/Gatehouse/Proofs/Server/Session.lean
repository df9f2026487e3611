import Gatehouse.Proofs.Cache.Agreement
import Gatehouse.Proofs.Cache.Millis
import Gatehouse.Proofs.Server.Client
import Gatehouse.Proofs.Server.Keyspace

/-!
# The engine of a server answers like the engine in memory

The server keeps deadlines in milliseconds by its own clock. While that clock and the forward clock move together by
whole milliseconds, a client of any server that does what it is documented to do stands for the map with deadlines, as
the engine in memory does.
-/

namespace Gatehouse

/-! ## What a server shows -/

/-- The slot of an entry, with its deadline on the forward clock. -/
def KeyspaceEntry.slot (clocks : Clocks) (e : KeyspaceEntry) : Slot := Slot.ofWall clocks e.value e.deadline

namespace Database

/-- The slots of a database. -/
def slots (clocks : Clocks) (db : Database) : Contents := fun k => (db (Bytes.ofText k)).map (KeyspaceEntry.slot clocks)

/-- All keys of a database are octets of texts, and all deadlines are taken by the server and still to come. -/
def Tidy (nowMillis : Nat) (db : Database) : Prop :=
  ∀ k e, db k = some e →
    (∃ t, Bytes.ofText t = k) ∧ ∀ millis ∈ e.deadline, nowMillis < millis ∧ millis < Command.deadlineLimit

variable {clocks : Clocks} {db : Database} {key stem : String} {now : Nat}

theorem slots_put (key : String) (e : Option KeyspaceEntry) :
    slots clocks (Command.put db (Bytes.ofText key) e) =
      (slots clocks db).set key (e.map (KeyspaceEntry.slot clocks)) := by
  funext k
  unfold slots Command.put Contents.set
  by_cases hk : k = key
  · rw [if_pos hk, if_pos (congrArg Bytes.ofText hk)]
  · rw [if_neg hk, if_neg (mt Bytes.ofText_inj.mp hk)]

theorem isSome_slots : (slots clocks db key).isSome = (db (Bytes.ofText key)).isSome := by
  unfold slots
  rw [Option.isSome_map]

theorem Tidy.put (h : Tidy now db) (key : String) {e : Option KeyspaceEntry}
    (he : ∀ entry ∈ e, ∀ millis ∈ entry.deadline, now < millis ∧ millis < Command.deadlineLimit) :
    Tidy now (Command.put db (Bytes.ofText key) e) := by
  intro k entry hentry
  unfold Command.put at hentry
  split at hentry
  · rename_i hk
    exact ⟨⟨key, hk.symm⟩, he entry hentry⟩
  · exact h k entry hentry

theorem Tidy.exists_text (h : Tidy now db) {k : Bytes} (hk : (db k).isSome = true) : ∃ t, Bytes.ofText t = k := by
  obtain ⟨e, he⟩ := Option.isSome_iff_exists.mp hk
  exact (h k e he).1

/-- The entries of the keys that a walk finds are the slots under its text. -/
theorem lists_entriesOf {keys : List String} (hnodup : keys.Nodup)
    (hmem : ∀ k, k ∈ keys ↔ startsWith stem k = true ∧ (db (Bytes.ofText k)).isSome = true) :
    (slots clocks db).Lists .any stem (Client.entriesOf db keys) := by
  refine ⟨?_, trivial, fun k b => ?_⟩
  · rw [Client.keys_entriesOf fun k hk => ((hmem k).mp hk).2]
    exact hnodup
  · unfold Client.entriesOf slots
    rw [List.mem_filterMap]
    constructor
    · rintro ⟨k', hk', hentry⟩
      obtain ⟨e, he, heq⟩ := Option.map_eq_some_iff.mp hentry
      obtain ⟨rfl, rfl⟩ := Prod.mk.inj heq
      exact ⟨((hmem k').mp hk').1, e.slot clocks, by rw [he]; rfl, rfl⟩
    · rintro ⟨hstem, slot, hslot, rfl⟩
      obtain ⟨e, he, rfl⟩ := Option.map_eq_some_iff.mp hslot
      exact ⟨k, (hmem k).mpr ⟨hstem, by rw [he]; rfl⟩, by rw [he]; rfl⟩

end Database

/-! ## Calls -/

namespace Server

variable {σ α : Type} {S : Server σ} {clocks : Clocks} {client : Client} {far : σ} {c : EngineCall}

/-- A call was answered by what the database showed, and has done to the database what it does to the map. -/
structure Served (S : Server σ) (clocks : Clocks) (far : σ) (c : EngineCall) (result : c.Answer × σ) : Prop where
  replies : ∃ r, result.1 = .returned r ∧
    (Database.slots clocks (S.database clocks.unixMillis far)).Replies .any clocks.monotonic c r
  sound : S.Sound result.2
  tidy : Database.Tidy clocks.unixMillis (S.database clocks.unixMillis result.2)
  contents : c ≠ .close → Database.slots clocks (S.database clocks.unixMillis result.2) =
    (Database.slots clocks (S.database clocks.unixMillis far)).after clocks.monotonic c

theorem Served.of_database {r : Except CacheError c.Reply} {s' : σ} {db : Database}
    (hreplies : (Database.slots clocks (S.database clocks.unixMillis far)).Replies .any clocks.monotonic c r)
    (hsound : S.Sound s') (hdatabase : S.database clocks.unixMillis s' = db)
    (htidy : Database.Tidy clocks.unixMillis db)
    (hcontents : c ≠ .close → Database.slots clocks db =
      (Database.slots clocks (S.database clocks.unixMillis far)).after clocks.monotonic c) :
    Served S clocks far c (.returned r, s') := by
  subst hdatabase
  exact ⟨⟨r, rfl, hreplies⟩, hsound, htidy, hcontents⟩

section
variable (hS : S.Documented) (hs : S.Sound far)
  (htidy : Database.Tidy clocks.unixMillis (S.database clocks.unixMillis far)) (client : Client) (fuel : Nat)
include hS hs htidy

/-! ### Calls that read an entry -/

theorem served_has (key : String) :
    Served S clocks far (.has key) (client.perform (S.answer clocks.unixMillis) fuel (.has key) far) := by
  obtain ⟨s', hask, hsound, hdatabase⟩ :=
    Client.ask_command client hS hs clocks.unixMillis (c := .holds key) trivial Client.truth?_reply_holds
  simp only [Client.perform, hask]
  exact .of_database (congrArg _ Database.isSome_slots.symm) hsound hdatabase htidy fun _ => rfl

theorem served_fetch (key : String) :
    Served S clocks far (.fetch key) (client.perform (S.answer clocks.unixMillis) fuel (.fetch key) far) := by
  obtain ⟨s', hask, hsound, hdatabase⟩ :=
    Client.ask_command client hS hs clocks.unixMillis (c := .get key) trivial Client.value?_reply_get
  simp only [Client.perform, hask]
  refine .of_database ?_ hsound hdatabase htidy fun _ => rfl
  unfold Contents.Replies Database.slots
  simp only
  cases S.database clocks.unixMillis far (Bytes.ofText key) <;> rfl

theorem served_remaining (key : String) :
    Served S clocks far (.remaining key)
      (client.perform (S.answer clocks.unixMillis) fuel (.remaining key) far) := by
  obtain ⟨n, hread, hlifetime⟩ := Client.lifetime_reply_pttl fun e he => (htidy (Bytes.ofText key) e he).2
  obtain ⟨s', hask, hsound, hdatabase⟩ :=
    Client.ask_command client hS hs clocks.unixMillis (c := .pttl key) trivial hread
  simp only [Client.perform, hask]
  refine .of_database ?_ hsound hdatabase htidy fun _ => rfl
  change Client.lifetime n = _
  rw [hlifetime]
  unfold Database.slots
  cases S.database clocks.unixMillis far (Bytes.ofText key) with
  | none => rfl
  | some e => exact congrArg _ Slot.remaining_ofWall.symm

/-! ### Calls that write -/

theorem served_put (key : String) (value : Bytes) {lifetime : Option Span}
    (h : ∀ d ∈ lifetime, d.Fits clocks Command.deadlineLimit) :
    Served S clocks far (.put key value lifetime)
      (client.perform (S.answer clocks.unixMillis) fuel (.put key value lifetime) far) := by
  have hmillis : (lifetime.map fun d => max 1 d.millisWord) = lifetime.map Span.millis := by
    cases lifetime with
    | none => rfl
    | some d =>
      rw [Option.map_some, Option.map_some, (h d rfl).millisWord_eq (by decide), Nat.max_eq_right (h d rfl).millis_pos]
  have hproper : (Command.set key value (lifetime.map Span.millis)).Proper clocks.unixMillis := by
    intro n hn
    obtain ⟨d, hd, rfl⟩ := Option.map_eq_some_iff.mp hn
    exact ⟨(h d hd).millis_pos, (h d hd).below⟩
  obtain ⟨s', hask, hsound, hdatabase⟩ := Client.ask_anything client hS hs clocks.unixMillis hproper
  simp only [Client.perform, hmillis, hask]
  refine .of_database rfl hsound hdatabase (htidy.put key ?_) fun _ => ?_
  · intro entry hentry millis hmillis
    obtain rfl := Option.some.inj hentry
    obtain ⟨n, hn, rfl⟩ := Option.map_eq_some_iff.mp hmillis
    obtain ⟨hpos, hlimit⟩ := hproper n hn
    exact ⟨Nat.lt_add_of_pos_right hpos, hlimit⟩
  · refine (Database.slots_put key _).trans (congrArg _ ?_)
    rw [Option.map_some, Option.map_map]
    exact congrArg some (Slot.ofWall_written h)

theorem served_delete (key : String) :
    Served S clocks far (.delete key) (client.perform (S.answer clocks.unixMillis) fuel (.delete key) far) := by
  obtain ⟨s', hask, hsound, hdatabase⟩ := Client.ask_anything client hS hs clocks.unixMillis (c := .del key) trivial
  simp only [Client.perform, hask]
  exact .of_database rfl hsound hdatabase (htidy.put key fun _ h => nomatch h) fun _ => Database.slots_put key none

theorem served_take (key : String) :
    Served S clocks far (.take key) (client.perform (S.answer clocks.unixMillis) fuel (.take key) far) := by
  obtain ⟨s', hask, hsound, hdatabase⟩ :=
    Client.ask_command client hS hs clocks.unixMillis (c := .del key) trivial Client.unsigned?_reply_del
  simp only [Client.perform, hask]
  refine .of_database ?_ hsound hdatabase (htidy.put key fun _ h => nomatch h) fun _ => Database.slots_put key none
  unfold Contents.Replies
  simp only
  rw [Database.isSome_slots]
  cases (S.database clocks.unixMillis far (Bytes.ofText key)).isSome <;> rfl

omit htidy in
theorem served_flush :
    Served S clocks far .flush (client.perform (S.answer clocks.unixMillis) fuel .flush far) := by
  obtain ⟨s', hask, hsound, hdatabase⟩ := Client.ask_anything client hS hs clocks.unixMillis (c := .flush) trivial
  simp only [Client.perform, hask]
  exact .of_database rfl hsound hdatabase (fun _ _ h => nomatch h) fun _ => rfl

/-! ### Scans -/

variable (hpage : 0 < client.pageSize)
include hpage

theorem served_keys (stem : String) :
    Served S clocks far (.keys stem)
      (client.perform (S.answer clocks.unixMillis) (S.pageBound far) (.keys stem) far) := by
  obtain ⟨keys, s', hwalk, hsound, hdatabase, hnodup, hmem⟩ :=
    Client.walk_eq hS hs hpage (fun _ hk => htidy.exists_text hk) stem
  simp only [Client.perform, hwalk]
  refine .of_database ⟨_, Database.lists_entriesOf hnodup hmem, ?_⟩ hsound hdatabase htidy fun _ => rfl
  rw [Client.keys_entriesOf fun k hk => ((hmem k).mp hk).2]

theorem served_entries (stem : String) :
    Served S clocks far (.entries stem)
      (client.perform (S.answer clocks.unixMillis) (S.pageBound far) (.entries stem) far) := by
  obtain ⟨keys, s₁, hwalk, hsound₁, hdatabase₁, hnodup, hmem⟩ :=
    Client.walk_eq hS hs hpage (fun _ hk => htidy.exists_text hk) stem
  obtain ⟨s', hfetch, hsound, hdatabase⟩ :=
    Client.fetchAll_eq client hS hsound₁ (Client.batches Client.batchSize keys)
  rw [hdatabase₁, Client.flatten_batches] at hfetch
  simp only [Client.perform, hwalk, hfetch]
  exact .of_database ⟨_, Database.lists_entriesOf hnodup hmem, rfl⟩ hsound (hdatabase.trans hdatabase₁) htidy
    fun _ => rfl

/-! ### All calls -/

/-- Every call is served. -/
theorem served (hc : (Terms.whole Command.deadlineLimit).Admits clocks c) :
    Served S clocks far c (client.perform (S.answer clocks.unixMillis) (S.pageBound far) c far) := by
  cases c with
  | has key => exact served_has hS hs htidy client _ key
  | fetch key => exact served_fetch hS hs htidy client _ key
  | put key value lifetime =>
    exact served_put hS hs htidy client _ key value (Terms.fits_of_admits hc)
  | delete key => exact served_delete hS hs htidy client _ key
  | take key => exact served_take hS hs htidy client _ key
  | keys stem => exact served_keys hS hs htidy client hpage stem
  | entries stem => exact served_entries hS hs htidy client hpage stem
  | remaining key => exact served_remaining hS hs htidy client _ key
  | flush => exact served_flush hS hs client _
  | close => exact .of_database rfl hs rfl htidy fun h => absurd rfl h

end

/-! ## Standing for the map -/

/-- The deadlines of whole milliseconds that the server takes. -/
def terms : Terms := .whole Command.deadlineLimit

/-- What can be seen of a client with its server. -/
def view (S : Server σ) : View (Session σ) where
  isOpen := Session.isOpen
  contents clocks r := Database.slots clocks (S.database clocks.unixMillis r.far)
  Sound clocks r :=
    S.Sound r.far ∧ Database.Tidy clocks.unixMillis (S.database clocks.unixMillis r.far) ∧ 0 < r.client.pageSize ∧
      0 ≤ clocks.wall

variable {r : Session σ}

theorem perform_of_open (h : r.isOpen = true) (c : EngineCall) :
    S.backend.perform clocks r c =
      ((r.client.perform (S.answer clocks.unixMillis) (S.pageBound r.far) c r.far).1,
        ⟨r.client, c.method ≠ .close,
          (r.client.perform (S.answer clocks.unixMillis) (S.pageBound r.far) c r.far).2⟩) := by
  unfold backend
  simp only
  rw [if_pos h]

/-- What is left when the clocks have moved is what has not expired. -/
theorem Documented.slots_advance (hS : S.Documented) (hs : S.Sound far) (hclocks : 0 ≤ clocks.wall) {d : Span}
    (hd : d.IsWhole) :
    Database.slots (clocks.advance d) (S.database (clocks.advance d).unixMillis far) =
      (Database.slots clocks (S.database clocks.unixMillis far)).presentAt (clocks.advance d).monotonic := by
  have hlive : Slot.isPresent (clocks.advance d).monotonic ∘ KeyspaceEntry.slot (clocks.advance d) =
      Keyspace.isLive (clocks.advance d).unixMillis := funext fun e => Slot.isPresent_ofWall
  funext k
  simp only [Database.slots, Contents.presentAt]
  rw [hS.expiry hs (Clocks.unixMillis_le_advance clocks d), ← hlive, ← Option.filter_map]
  cases S.database clocks.unixMillis far (Bytes.ofText k) with
  | none => rw [Option.map_none, Option.map_none]
  | some e =>
    rw [Option.map_some, Option.map_some]
    exact Slot.filter_ofWall_advance hclocks hd

theorem Documented.tidy_later (hS : S.Documented) (hs : S.Sound far) {now later : Nat} (hle : now ≤ later)
    (h : Database.Tidy now (S.database now far)) : Database.Tidy later (S.database later far) := by
  intro k e he
  rw [hS.expiry hs hle] at he
  obtain ⟨he, hlive⟩ := Option.filter_eq_some_iff.mp he
  obtain ⟨htext, hdeadline⟩ := h k e he
  refine ⟨htext, fun millis hmillis => ⟨?_, (hdeadline millis hmillis).2⟩⟩
  unfold Keyspace.isLive at hlive
  rw [hmillis] at hlive
  exact of_decide_eq_true hlive

/-- A client of a documented server stands for the map while the clocks move together by whole milliseconds. -/
theorem faithful (hS : S.Documented) : Faithful S.backend terms .any (view S) where
  closed := by
    intro clocks r c _ hshut
    have hclosed : ¬r.isOpen = true := by simp [show r.isOpen = false from hshut]
    unfold backend
    simp only
    rw [if_neg hclosed]
  replies := by
    rintro clocks r c ⟨hs, htidy, hpage, -⟩ hopen hc
    rw [perform_of_open hopen]
    exact (served hS hs htidy r.client hpage hc).replies
  isOpen := by
    intro clocks r c _ hopen _
    rw [perform_of_open hopen]
    cases c <;> rfl
  sound := by
    rintro clocks r c ⟨hs, htidy, hpage, hclocks⟩ hopen hc
    have h := served hS hs htidy r.client hpage hc
    rw [perform_of_open hopen]
    exact ⟨h.sound, h.tidy, hpage, hclocks⟩
  contents := by
    rintro clocks r c ⟨hs, htidy, hpage, -⟩ hopen hc hclose
    rw [perform_of_open hopen]
    exact (served hS hs htidy r.client hpage hc).contents hclose
  advance := by
    rintro clocks r d ⟨hs, htidy, hpage, hclocks⟩ hd
    have htidy' := hS.tidy_later hs (Clocks.unixMillis_le_advance clocks d) htidy
    exact ⟨⟨hs, htidy', hpage, Clocks.wall_advance hclocks d⟩, hS.slots_advance hs hclocks hd⟩
  maintain := fun h => ⟨h, rfl, rfl⟩

/-- A new connection to a server without entries shows the empty map. -/
theorem shows_connection (hclocks : 0 ≤ clocks.wall) (timeout : Span) (pageSize : Nat) (hs : S.Sound far)
    (hempty : ∀ k, S.database clocks.unixMillis far k = none) :
    Faithful.Shows (view S) clocks ⟨Client.new timeout pageSize, true, far⟩ .empty where
  sound := by
    refine ⟨hs, fun k e he => ?_, Nat.le_max_left 1 pageSize, hclocks⟩
    rw [hempty k] at he
    cases he
  isOpen := rfl
  contents _ := by
    funext k
    simp only [view, Database.slots]
    rw [hempty]
    rfl

/-- The cache over a new connection to a server without entries answers like the cache over a new engine in memory, for
every server that does what it is documented to do, however many keys it holds, whatever number of keys is asked for in
a page, and however often its pages repeat keys. After every run of calls of the cache, with the clocks moving together,
the next call is answered alike by both, and as the map answers it. -/
theorem session_answers_as_memory (hS : S.Documented) (clocks : Clocks) (hclocks : 0 ≤ clocks.wall)
    (hearly : clocks.IsEarly) (interval : Option Span) (listing : Listing (String × Memory.Entry)) (timeout : Span)
    (pageSize : Nat) (hs : S.Sound far) (hempty : ∀ k, S.database clocks.unixMillis far k = none)
    (steps : List CacheStep) (c : CacheCall) (h : terms.Met clocks (steps ++ [.call c])) :
    ∃ r r', (S.backend.run (clocks.after steps)
        (S.backend.after clocks ⟨Client.new timeout pageSize, true, far⟩ steps) c).1 = .returned r ∧
      (Backend.engine.run (clocks.after steps)
        (Backend.engine.after clocks (.memory { Memory.start clocks.monotonic interval with listing }) steps)
          c).1 = .returned r' ∧
      c.Alike r r' ∧ (ExpiringMap.empty.after clocks steps).Answers .any (clocks.after steps).monotonic c r := by
  obtain ⟨r, hr, hanswers⟩ :=
    (faithful hS).answers_after (shows_connection hclocks timeout pageSize hs hempty) h
  obtain ⟨r', hr', hanswers'⟩ :=
    Memory.faithful.answers_after (Memory.shows_start clocks interval listing)
      (Terms.met_memory (by decide) hclocks hearly h)
  exact ⟨r, r', hr, hr', hanswers.alike hanswers', hanswers⟩

/-- A value for two seconds and one for ever, one millisecond after the first has expired. -/
def expiredRun : List CacheStep :=
  [.call (CacheCall.put String "session:1" "open" (some (Span.ofMillis 2000))),
    .call (CacheCall.put String "session:2" "open" none), .advance (Span.ofMillis 2000), .maintain .tick,
    .advance (Span.ofMillis 1)]

theorem session_answers_as_memory_over_repeated_keys :
    ∃ r r', (Keyspace.repeating.backend.run ⟨2001000000, 2001000000⟩
        (Keyspace.repeating.backend.after ⟨0, 0⟩ ⟨Client.new (Span.ofSeconds 1) 0, true, {}⟩ expiredRun)
        (CacheCall.values String "session:")).1 = .returned r ∧
      (Backend.engine.run ⟨2001000000, 2001000000⟩
        (Backend.engine.after ⟨0, 0⟩ (.memory (Memory.start 0 none)) expiredRun)
        (CacheCall.values String "session:")).1 = .returned r' ∧
      (CacheCall.values String "session:").Alike r r' ∧
      (ExpiringMap.empty.after ⟨0, 0⟩ expiredRun).Answers .any 2001000000 (CacheCall.values String "session:") r :=
  session_answers_as_memory Keyspace.repeating_documented ⟨0, 0⟩ (Int.le_refl 0) (Nat.zero_le _) none
    .ascending (Span.ofSeconds 1) 0 trivial (fun _ => rfl) expiredRun (CacheCall.values String "session:")
    ⟨fun _ => ⟨rfl, by decide⟩, trivial, rfl, trivial, rfl, trivial, trivial⟩

end Server

end Gatehouse
