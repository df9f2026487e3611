import Gatehouse.Proofs.Cache.Lease
import Gatehouse.Proofs.Server.Session

/-!
# How long a server keeps entries

A server gets the lifetime of a value in milliseconds, at least one, and keeps the entry until its own clock shows the
deadline. Calls about other keys leave the entry alone, whatever they find and however their replies are read.
-/

namespace Gatehouse

/-- What else a server is documented to do. A page of a scan changes nothing, also when the scan goes no further. A
value with a deadline that is out of range is refused, and then nothing has changed, or it is taken as any other. -/
structure Server.Steady {σ : Type} (S : Server σ) : Prop where
  scan : ∀ {nowMillis s} (cursor : Nat) (pattern : Bytes) (count : Nat), S.Sound s →
    S.Sound (S.answer nowMillis (.scan cursor pattern count) s).2 ∧
      S.database nowMillis (S.answer nowMillis (.scan cursor pattern count) s).2 = S.database nowMillis s
  set : ∀ {nowMillis s n} (key : String) (value : Bytes), S.Sound s → 0 < n → Command.deadlineLimit ≤ nowMillis + n →
    ∃ s', S.Sound s' ∧
      (S.answer nowMillis (.set key value (some n)) s = (.refusal, s') ∧
          S.database nowMillis s' = S.database nowMillis s ∨
        S.answer nowMillis (.set key value (some n)) s = (.reply .okay, s') ∧
          S.database nowMillis s' = (Command.set key value (some n)).effect nowMillis (S.database nowMillis s))

theorem Keyspace.repeating_steady : repeating.Steady where
  scan _ _ _ _ := ⟨trivial, rfl⟩
  set {nowMillis s n} key value _ hpos _ := by
    have hmillis : ∀ millis ∈ some n, 0 < millis := fun millis hn => Option.some.inj hn ▸ hpos
    exact ⟨_, trivial, .inr ⟨rfl, live?_put hmillis s _⟩⟩

/-- A command that is refused fails. -/
theorem Client.ask_of_refusal {σ α : Type} {peer : Peer σ} {client : Client} {read : Reply → Option α} {c : Command}
    {s s' : σ} (h : peer c s = (.refusal, s')) : ask peer client read c s = (.error .server, s') := by
  simp [ask, request, send, h, replies, isSilence, reply?]

namespace Server

variable {σ : Type} {S : Server σ} {now t millis : Nat} {key : String} {s s' : σ} {client : Client}

/-! ## Entries that are left alone -/

/-- Nothing about a key has changed. -/
structure Keeps (S : Server σ) (now : Nat) (key : String) (s s' : σ) : Prop where
  sound : S.Sound s'
  entry : S.database now s' (Bytes.ofText key) = S.database now s (Bytes.ofText key)

theorem Keeps.trans {s'' : σ} (h : S.Keeps now key s s') (h' : S.Keeps now key s' s'') : S.Keeps now key s s'' :=
  ⟨h'.sound, h'.entry.trans h.entry⟩

/-- A command whose documented effect leaves a key alone changes nothing about it. -/
theorem Documented.keeps (hS : S.Documented) (hs : S.Sound s) {c : Command} (hc : c.Proper now)
    (heffect : ∀ db : Database, c.effect now db (Bytes.ofText key) = db (Bytes.ofText key)) :
    S.Keeps now key s (S.answer now c s).2 := by
  obtain ⟨s', hanswer, hsound, hdatabase⟩ := hS.command hs hc
  rw [hanswer]
  exact ⟨hsound, (congrFun hdatabase _).trans (heffect _)⟩

theorem Steady.keeps_scan (hsteady : S.Steady) (hs : S.Sound s) (cursor : Nat) (pattern : Bytes) (count : Nat) :
    S.Keeps now key s (S.answer now (.scan cursor pattern count) s).2 :=
  ⟨(hsteady.scan cursor pattern count hs).1, congrFun (hsteady.scan cursor pattern count hs).2 _⟩

theorem effect_put_of_ne {key' : String} (h : ¬key' = key) (e : Option KeyspaceEntry) (db : Database) :
    Command.put db (Bytes.ofText key') e (Bytes.ofText key) = db (Bytes.ofText key) :=
  if_neg fun heq => h (Bytes.ofText_inj.mp heq).symm

section
variable (hS : S.Documented) (hsteady : S.Steady) (hs : S.Sound s)
include hS hs

/-- Fetching values changes nothing. -/
theorem keeps_fetchAll (batches : List (List String)) :
    S.Keeps now key s (Client.fetchAll (S.answer now) client batches s).2 := by
  obtain ⟨s', hfetch, hsound, hdatabase⟩ := Client.fetchAll_eq client hS hs batches
  rw [hfetch]
  exact ⟨hsound, congrFun hdatabase _⟩

include hsteady

/-- Putting a value under another key changes nothing, whether it is taken or not. -/
theorem keeps_set {key' : String} (h : ¬key' = key) (value : Bytes) (lifetime : Option Span) :
    S.Keeps now key s (S.answer now (.set key' value (lifetime.map fun d => max 1 d.millisWord)) s).2 := by
  by_cases hproper : (Command.set key' value (lifetime.map fun d => max 1 d.millisWord)).Proper now
  · exact hS.keeps hs hproper fun db => effect_put_of_ne h _ db
  · cases lifetime with
    | none => exact absurd (fun _ hn => absurd hn (Option.not_mem_none _)) hproper
    | some d =>
      have hpos : 0 < max 1 d.millisWord := Nat.le_max_left 1 _
      have hlimit : Command.deadlineLimit ≤ now + max 1 d.millisWord := by
        refine Nat.le_of_not_lt fun hlt => hproper fun n hn => ?_
        obtain rfl := Option.some.inj hn
        exact ⟨hpos, hlt⟩
      obtain ⟨s', hsound, ⟨hanswer, hdatabase⟩ | ⟨hanswer, hdatabase⟩⟩ := hsteady.set key' value hs hpos hlimit
      · rw [Option.map_some, hanswer]
        exact ⟨hsound, congrFun hdatabase _⟩
      · rw [Option.map_some, hanswer]
        exact ⟨hsound, (congrFun hdatabase _).trans (effect_put_of_ne h _ _)⟩

omit hS in
/-- A walk changes nothing, wherever it ends. -/
theorem keeps_walk (stem : String) (fuel cursor : Nat) (found : List String) :
    S.Keeps now key s (Client.walk (S.answer now) client stem fuel cursor found s).2 := by
  induction fuel generalizing cursor found s with
  | zero => exact ⟨hs, rfl⟩
  | succ fuel ih =>
    have hpage :
        S.Keeps now key s (Client.ask (S.answer now) client Reply.page? (client.scanCommand stem cursor) s).2 :=
      hsteady.keeps_scan hs cursor _ _
    unfold Client.walk
    split
    · rename_i heq
      rw [heq] at hpage
      exact hpage
    · rename_i heq
      rw [heq] at hpage
      split
      · exact hpage
      · exact hpage.trans (ih hpage.sound _ _)

/-- A call that leaves a key alone changes nothing about it. -/
theorem keeps_perform (fuel : Nat) {c : EngineCall} (hc : Memory.Outside (· = key) c) :
    S.Keeps now key s (client.perform (S.answer now) fuel c s).2 := by
  cases c with
  | has key' => exact hS.keeps hs (c := .holds key') trivial fun _ => rfl
  | fetch key' => exact hS.keeps hs (c := .get key') trivial fun _ => rfl
  | remaining key' => exact hS.keeps hs (c := .pttl key') trivial fun _ => rfl
  | put key' value lifetime => exact keeps_set hS hsteady hs hc value lifetime
  | delete key' => exact hS.keeps hs (c := .del key') trivial (effect_put_of_ne hc none)
  | take key' => exact hS.keeps hs (c := .del key') trivial (effect_put_of_ne hc none)
  | keys stem =>
    have hwalk : S.Keeps now key s (Client.walk (S.answer now) client stem fuel 0 [] s).2 :=
      keeps_walk hsteady hs stem fuel 0 []
    simp only [Client.perform]
    split <;> (rename_i heq; rw [heq] at hwalk; exact hwalk)
  | entries stem =>
    have hwalk : S.Keeps now key s (Client.walk (S.answer now) client stem fuel 0 [] s).2 :=
      keeps_walk hsteady hs stem fuel 0 []
    simp only [Client.perform]
    split
    · rename_i heq
      rw [heq] at hwalk
      exact hwalk
    · rename_i heq
      rw [heq] at hwalk
      exact hwalk
    · rename_i heq
      rw [heq] at hwalk
      exact hwalk.trans (keeps_fetchAll hS hwalk.sound _)
  | flush => exact hc.elim
  | close => exact hc.elim

end

section
variable {r : Session σ} {clocks : Clocks}

/-- A client that is asked whether a key is there answers by the database. -/
theorem perform_has (hS : S.Documented) (hopen : r.isOpen = true) (hs : S.Sound r.far) :
    (S.backend.perform clocks r (.has key)).1 =
      .returned (.ok (S.database clocks.unixMillis r.far (Bytes.ofText key)).isSome) := by
  obtain ⟨s', hask, -, -⟩ :=
    Client.ask_command r.client hS hs clocks.unixMillis (c := .holds key) trivial Client.truth?_reply_holds
  rw [perform_of_open hopen]
  simp only [Client.perform, hask, Client.settled]

/-- A call that leaves a key alone leaves the connection open. -/
theorem perform_outside (hS : S.Documented) (hsteady : S.Steady) (hopen : r.isOpen = true) (hs : S.Sound r.far)
    {c : EngineCall} (hc : Memory.Outside (· = key) c) :
    (S.backend.perform clocks r c).2.isOpen = true ∧
      S.Keeps clocks.unixMillis key r.far (S.backend.perform clocks r c).2.far := by
  have hstays : c.method ≠ .close := by
    intro heq
    cases c <;> first | exact hc.elim | cases heq
  rw [perform_of_open hopen]
  exact ⟨decide_eq_true hstays, keeps_perform hS hsteady hs _ hc⟩

end

/-! ## Entries until their deadline -/

/-- Under a key there is an entry with a deadline, or nothing any more once the deadline has come. -/
structure Holds (S : Server σ) (now : Nat) (r : Session σ) (key : String) (millis : Nat) : Prop where
  isOpen : r.isOpen = true
  sound : S.Sound r.far
  stored : ∀ e, S.database now r.far (Bytes.ofText key) = some e → e.deadline = some millis
  absent : S.database now r.far (Bytes.ofText key) = none → millis ≤ now

/-- A value that is taken is in the database, with its deadline. -/
theorem database_set (hS : S.Documented) (hsteady : S.Steady) (hs : S.Sound s) {b : Bytes} {n : Nat} (hpos : 0 < n)
    (h : (Client.ask (S.answer now) client Client.anything (.set key b (some n)) s).1 = .ok ()) :
    S.Sound (S.answer now (.set key b (some n)) s).2 ∧
      S.database now (S.answer now (.set key b (some n)) s).2 (Bytes.ofText key) = some ⟨b, some (now + n)⟩ := by
  have htaken {db : Database} (hdatabase : db = (Command.set key b (some n)).effect now (S.database now s)) :
      db (Bytes.ofText key) = some ⟨b, some (now + n)⟩ :=
    (congrFun hdatabase _).trans (if_pos rfl)
  by_cases hlimit : now + n < Command.deadlineLimit
  · have hproper : (Command.set key b (some n)).Proper now := fun _ hn => Option.some.inj hn ▸ ⟨hpos, hlimit⟩
    obtain ⟨s', hanswer, hsound, hdatabase⟩ := hS.command hs hproper
    rw [hanswer]
    exact ⟨hsound, htaken hdatabase⟩
  · obtain ⟨s', hsound, ⟨hanswer, -⟩ | ⟨hanswer, hdatabase⟩⟩ := hsteady.set key b hs hpos (Nat.le_of_not_lt hlimit)
    · rw [Client.ask_of_refusal hanswer] at h
      cases h
    · rw [hanswer]
      exact ⟨hsound, htaken hdatabase⟩

/-- What is in a database is still to go. -/
theorem Documented.isLive (hS : S.Documented) (hs : S.Sound s) {k : Bytes} {e : KeyspaceEntry}
    (he : S.database now s k = some e) : Keyspace.isLive now e = true := by
  rw [hS.expiry hs (Nat.le_refl now)] at he
  exact (Option.filter_eq_some_iff.mp he).2

namespace Holds

variable {r : Session σ} {clocks : Clocks}

theorem has (hS : S.Documented) (h : S.Holds clocks.unixMillis r key millis) :
    (S.backend.perform clocks r (.has key)).1 = .returned (.ok (decide (clocks.unixMillis < millis))) := by
  have hlive : (S.database clocks.unixMillis r.far (Bytes.ofText key)).isSome =
      decide (clocks.unixMillis < millis) := by
    cases hentry : S.database clocks.unixMillis r.far (Bytes.ofText key) with
    | none => exact (decide_eq_false (Nat.not_lt.mpr (h.absent hentry))).symm
    | some e =>
      have hahead := hS.isLive h.sound hentry
      unfold Keyspace.isLive at hahead
      rw [h.stored e hentry, Option.all_some] at hahead
      exact hahead.symm
  rw [perform_has hS h.isOpen h.sound, hlive]

theorem perform (hS : S.Documented) (hsteady : S.Steady) (h : S.Holds clocks.unixMillis r key millis) {c : EngineCall}
    (hc : Memory.Outside (· = key) c) : S.Holds clocks.unixMillis (S.backend.perform clocks r c).2 key millis := by
  obtain ⟨hopen, hkeeps⟩ := perform_outside hS hsteady h.isOpen h.sound hc
  refine ⟨hopen, hkeeps.sound, fun e he => ?_, fun hnone => ?_⟩
  · exact h.stored e (hkeeps.entry.symm.trans he)
  · exact h.absent (hkeeps.entry.symm.trans hnone)

/-- What is gone from a database by its deadline is gone from then on. -/
theorem later (hS : S.Documented) (h : S.Holds now r key millis) (hle : now ≤ t) : S.Holds t r key millis := by
  refine ⟨h.isOpen, h.sound, fun e he => ?_, fun hnone => ?_⟩
  · rw [hS.expiry h.sound hle] at he
    exact h.stored e (Option.filter_eq_some_iff.mp he).1
  · rw [hS.expiry h.sound hle, Option.filter_eq_none_iff] at hnone
    refine Nat.le_of_not_lt fun hlt => ?_
    cases hentry : S.database now r.far (Bytes.ofText key) with
    | none => exact Nat.not_lt.mpr (Nat.le_trans (h.absent hentry) hle) hlt
    | some e =>
      refine hnone e hentry ?_
      unfold Keyspace.isLive
      rw [h.stored e hentry, Option.all_some]
      exact decide_eq_true hlt

end Holds

/-- A value that is put for a lifetime is there until its deadline. -/
theorem holds_put (hS : S.Documented) (hsteady : S.Steady) {clocks : Clocks} {r : Session σ} (hs : S.Sound r.far)
    {b : Bytes} {d : Span} (h : (S.backend.perform clocks r (.put key b (some d))).1 = .returned (.ok ())) :
    S.Holds clocks.unixMillis (S.backend.perform clocks r (.put key b (some d))).2 key
      (clocks.unixMillis + max 1 d.millisWord) := by
  cases hopen : r.isOpen with
  | false =>
    have hclosed : ¬r.isOpen = true := by simp [hopen]
    unfold backend at h
    simp only at h
    rw [if_neg hclosed] at h
    cases h
  | true =>
    rw [perform_of_open hopen] at h ⊢
    obtain ⟨hsound, hentry⟩ := database_set hS hsteady hs (Nat.le_max_left 1 _) (Outcome.returned.inj h)
    refine ⟨rfl, hsound, fun e he => ?_, fun hnone => ?_⟩
    · obtain rfl := Option.some.inj (hentry.symm.trans he)
      rfl
    · cases hentry.symm.trans hnone

/-- An open connection takes a value that has a stored form, if the server takes its deadline. -/
theorem accepts (hS : S.Documented) {clocks : Clocks} {r : Session σ} {p : Deposit} {b : Bytes} (hs : S.Sound r.far)
    (hopen : r.isOpen = true) (hencode : Json.Encode.encode p.value = .ok b) (hpos : 0 < p.lifetime.nanos)
    (hlimit : clocks.unixMillis + max 1 p.lifetime.millisWord < Command.deadlineLimit) :
    S.backend.Accepts clocks r p := by
  have hproper : (Command.set p.key b (some (max 1 p.lifetime.millisWord))).Proper clocks.unixMillis :=
    fun _ hn => Option.some.inj hn ▸ ⟨Nat.le_max_left 1 _, hlimit⟩
  obtain ⟨s', hask, -, -⟩ := Client.ask_anything r.client hS hs clocks.unixMillis hproper
  unfold Backend.Accepts
  rw [Backend.run_call hencode hpos, perform_of_open hopen]
  simp only [Client.perform, Option.map_some, hask, Client.settled]
  rfl

/-- At a server an entry lives until the server's clock shows its deadline. -/
def leasing (hS : S.Documented) (hsteady : S.Steady) : Leasing S.backend where
  Kind r := S.Sound r.far
  expiry clocks d := .wall (clocks.unixMillis + max 1 d.millisWord)
  Holds clocks r key x := ∃ millis, x = .wall millis ∧ S.Holds clocks.unixMillis r key millis
  put key hs h := ⟨_, rfl, holds_put hS hsteady hs h⟩
  has := by
    rintro clocks r key _ ⟨millis, rfl, h⟩
    exact h.has hS
  perform := by
    rintro clocks r key _ c ⟨millis, rfl, h⟩ hc
    exact ⟨millis, rfl, h.perform hS hsteady hc⟩
  advance := by
    rintro clocks r key _ d ⟨millis, rfl, h⟩
    exact ⟨millis, rfl, h.later hS (Clocks.unixMillis_le_advance clocks d)⟩
  maintain := fun _ h => h

end Server

end Gatehouse
