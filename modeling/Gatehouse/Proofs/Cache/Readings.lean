import Gatehouse.Proofs.Cache.Sight

/-!
# What is read of a key

Three calls read a key: whether it is live, its value, and how long it still has. What they are answered is told by what
the engine has under the key (`Engine.SameUnder.readings_eq`). A scan leaves that as it is under every key, and so does
a call that puts a value under another key; a put fails and changes nothing, or it succeeds (`Engine.put_cases`).
-/

namespace Gatehouse

/-- What the three reads of a key are answered. -/
structure Readings (key : String) where
  has : EngineCall.Answer (.has key)
  fetch : EngineCall.Answer (.fetch key)
  remaining : EngineCall.Answer (.remaining key)

namespace Keyspace

variable {s : Keyspace} {now : Nat}

/-- A key space in which no answers are laid down takes every value, and has it under its key then. -/
theorem answer_set (hs : server.Sound s) (now : Nat) (key : String) (value : Bytes) (lifetime : Option Span) :
    ∃ s', s.answer now (.set key value (lifetime.map fun d => max 1 d.millisWord)) = (.reply .okay, s') ∧
      server.Sound s' ∧ s'.live? now = Command.put (s.live? now) (Bytes.ofText key)
        (some ⟨value, (lifetime.map fun d => max 1 d.millisWord).map (now + ·)⟩) := by
  refine ⟨_, answer_eq hs _, hs, live?_put (fun n hn => ?_) _ _⟩
  obtain ⟨d, -, rfl⟩ := Option.map_eq_some_iff.mp hn
  exact Nat.le_max_left 1 _

end Keyspace

/-- What a point read finds is told by the octets of its key. -/
theorem Embedded.read_of_octets {disk disk' : Table Bytes Bytes} {key : String}
    (h : disk'.get? (Bytes.ofText key) = disk.get? (Bytes.ofText key)) (now : Nat) :
    (read disk' now key).1 = (read disk now key).1 := by
  unfold read
  rw [h]
  split
  · rfl
  · split <;> rfl

namespace Engine

/-- What an engine answers to the reads of a key. -/
def readings (clocks : Clocks) (e : Engine) (key : String) : Readings key where
  has := (e.perform clocks (.has key)).1
  fetch := (e.perform clocks (.fetch key)).1
  remaining := (e.perform clocks (.remaining key)).1

/-- Two engines of one kind have the same under a key. -/
inductive SameUnder (clocks : Clocks) (key : String) : Engine → Engine → Prop where
  | memory {m m' : Memory} (closed : m'.closed = m.closed)
      (live : m'.live? clocks.monotonic key = m.live? clocks.monotonic key) :
      SameUnder clocks key (.memory m) (.memory m')
  | embedded {d d' : Embedded} (isOpen : d'.isOpen = d.isOpen)
      (octets : d'.disk.get? (Bytes.ofText key) = d.disk.get? (Bytes.ofText key)) :
      SameUnder clocks key (.embedded d) (.embedded d')
  | server {r r' : Remote} (client : r'.client = r.client) (isOpen : r'.isOpen = r.isOpen)
      (sound : Keyspace.server.Sound r.server) (sound' : Keyspace.server.Sound r'.server)
      (live : r'.server.live? clocks.unixMillis (Bytes.ofText key) =
        r.server.live? clocks.unixMillis (Bytes.ofText key)) :
      SameUnder clocks key (.server r) (.server r')

variable {clocks : Clocks} {e e' e'' : Engine} {key key' : String} {value : Bytes} {lifetime : Option Span}

namespace SameUnder

theorem refl (h : e.Undisturbed) (clocks : Clocks) (key : String) : SameUnder clocks key e e := by
  cases e with
  | memory m => exact .memory rfl rfl
  | embedded d => exact .embedded rfl rfl
  | server r => exact .server rfl rfl h h rfl

theorem trans (h : SameUnder clocks key e e') (h' : SameUnder clocks key e' e'') : SameUnder clocks key e e'' := by
  cases h with
  | memory closed live =>
    cases h' with
    | memory closed' live' => exact .memory (closed'.trans closed) (live'.trans live)
  | embedded isOpen octets =>
    cases h' with
    | embedded isOpen' octets' => exact .embedded (isOpen'.trans isOpen) (octets'.trans octets)
  | server client isOpen sound _ live =>
    cases h' with
    | server client' isOpen' _ sound'' live' =>
      exact .server (client'.trans client) (isOpen'.trans isOpen) sound sound'' (live'.trans live)

theorem undisturbed (h : SameUnder clocks key e e') : e'.Undisturbed := by
  cases h with
  | memory => trivial
  | embedded => trivial
  | server _ _ _ sound' => exact sound'

theorem isOpen_eq (h : SameUnder clocks key e e') : e'.isOpen = e.isOpen := by
  cases h with
  | memory closed => exact congrArg not closed
  | embedded isOpen => exact isOpen
  | server _ isOpen => exact isOpen

/-- What is read of a key is told by what there is under it. -/
theorem readings_eq (h : SameUnder clocks key e e') : e'.readings clocks key = e.readings clocks key := by
  have hopen := h.isOpen_eq
  cases hstate : e.isOpen with
  | false =>
    rw [hstate] at hopen
    simp only [readings, perform_of_closed hstate, perform_of_closed hopen]
  | true =>
    rw [hstate] at hopen
    cases h with
    | @memory m m' closed live =>
      have hclosed : m.closed = false := by simpa [isOpen] using hstate
      simp only [readings, perform, Memory.perform, closed, hclosed, Bool.false_eq_true, if_false, Memory.respond, live]
    | @embedded d d' _ octets =>
      have hread := Embedded.read_of_octets octets clocks.unixMillis
      simp only [readings, perform, Embedded.perform_of_open _ _ hstate, Embedded.perform_of_open _ _ hopen,
        Embedded.respond, hread]
    | @server r r' client _ sound sound' live =>
      have hask {α : Type} (read : Reply → Option α) {c : Command} (hc : c.Proper clocks.unixMillis)
          (hreply : c.reply clocks.unixMillis (r'.server.live? clocks.unixMillis) =
            c.reply clocks.unixMillis (r.server.live? clocks.unixMillis)) :
          (Client.ask (Keyspace.answer clocks.unixMillis) r.client read c r'.server).1 =
            (Client.ask (Keyspace.answer clocks.unixMillis) r.client read c r.server).1 := by
        obtain ⟨_, hanswer, -⟩ := Keyspace.answer_command sound clocks.unixMillis hc
        obtain ⟨_, hanswer', -⟩ := Keyspace.answer_command sound' clocks.unixMillis hc
        rw [Client.ask_eq hanswer, Client.ask_eq hanswer', hreply]
      have hholds := hask Reply.truth? (c := .holds key) trivial (by simp only [Command.reply, live])
      have hget := hask Reply.value? (c := .get key) trivial (by simp only [Command.reply, live])
      have hpttl := hask Reply.word? (c := .pttl key) trivial (by simp only [Command.reply, live])
      have hstate : r.isOpen = true := hstate
      have hopen : r'.isOpen = true := hopen
      simp only [readings, perform, Remote.perform, hstate, hopen, if_true, client, Client.perform, Client.settled,
        hholds, hget, hpttl]

/-- Putting one value under the key of both leaves the same under it. -/
theorem put (h : SameUnder clocks key e e') (value : Bytes) (lifetime : Option Span) :
    SameUnder clocks key (e.perform clocks (.put key value lifetime)).2
      (e'.perform clocks (.put key value lifetime)).2 := by
  have hopen := h.isOpen_eq
  cases hstate : e.isOpen with
  | false =>
    rw [hstate] at hopen
    rw [perform_of_closed hstate, perform_of_closed hopen]
    exact h
  | true =>
    rw [hstate] at hopen
    cases h with
    | @memory m m' closed live =>
      change SameUnder clocks key (.memory (m.perform _ _).2) (.memory (m'.perform _ _).2)
      rw [Memory.perform_of_open hstate, Memory.perform_of_open hopen]
      by_cases hfits : ∀ d, lifetime = some d → (Memory.deadline? clocks.monotonic d).isSome = true
      · rw [Memory.respond_put hfits, Memory.respond_put hfits]
        refine .memory closed ?_
        rw [Memory.live?_insert, Memory.live?_insert, if_pos rfl, if_pos rfl]
      · rw [Memory.respond_put_of_overflow hfits, Memory.respond_put_of_overflow hfits]
        exact .memory closed live
    | @embedded d d' isOpen _ =>
      change SameUnder clocks key (.embedded (d.perform _ _).2) (.embedded (d'.perform _ _).2)
      rw [Embedded.perform_of_open _ _ hstate, Embedded.perform_of_open _ _ hopen]
      refine .embedded isOpen ?_
      simp only [Embedded.respond, Table.get?_insert, if_true]
    | @server r r' client isOpen sound sound' _ =>
      obtain ⟨s, hanswer, hsound, hlive⟩ := Keyspace.answer_set sound clocks.unixMillis key value lifetime
      obtain ⟨s', hanswer', hsound', hlive'⟩ := Keyspace.answer_set sound' clocks.unixMillis key value lifetime
      rw [perform_server hstate (c := .put key value lifetime) (by simp),
        perform_server hopen (c := .put key value lifetime) (by simp)]
      simp only [Client.perform, Client.ask_eq hanswer, Client.ask_eq hanswer', Client.settled]
      refine .server client rfl hsound hsound' ?_
      rw [hlive, hlive']
      simp only [Command.put, if_true]

end SameUnder

/-- A scan leaves what there is under every key. -/
theorem sameUnder_keys (h : e.Undisturbed) (clocks : Clocks) (stem key : String) :
    SameUnder clocks key e (e.perform clocks (.keys stem)).2 := by
  cases hopen : e.isOpen with
  | false =>
    rw [perform_of_closed hopen]
    exact .refl h clocks key
  | true =>
    cases e with
    | memory m =>
      change SameUnder clocks key (.memory m) (.memory (m.perform _ _).2)
      rw [Memory.perform_of_open hopen]
      exact .memory rfl rfl
    | embedded d =>
      change SameUnder clocks key (.embedded d) (.embedded (d.perform _ _).2)
      rw [Embedded.perform_of_open _ _ hopen]
      exact .embedded rfl rfl
    | server r =>
      have hspares : (EngineCall.keys stem).Spares key := trivial
      have hkeeps := Remote.keeps_of_spares h clocks.unixMillis r.server.scanBound hspares
      rw [perform_server hopen (c := .keys stem) (by simp)]
      exact .server rfl hopen.symm h hkeeps.sound hkeeps.entry

/-- Putting a value under a key fails, or is abandoned, and leaves what there is under every key; or it succeeds and
leaves what there is under every other key. -/
theorem put_cases (h : e.Undisturbed) (clocks : Clocks) (key : String) (value : Bytes) (lifetime : Option Span) :
    ((e.perform clocks (.put key value lifetime)).1 = .returned (.ok ()) ∧
        ∀ key', key' ≠ key → SameUnder clocks key' e (e.perform clocks (.put key value lifetime)).2) ∨
      (e.perform clocks (.put key value lifetime)).1 ≠ .returned (.ok ()) ∧
        ∀ key', SameUnder clocks key' e (e.perform clocks (.put key value lifetime)).2 := by
  cases hopen : e.isOpen with
  | false =>
    rw [perform_of_closed hopen]
    exact .inr ⟨by simp, .refl h clocks⟩
  | true =>
    cases e with
    | memory m =>
      have hperform : (memory m).perform clocks (.put key value lifetime) =
          ((m.respond clocks.monotonic (.put key value lifetime)).1,
            .memory (m.respond clocks.monotonic (.put key value lifetime)).2) := by
        simp only [perform, Memory.perform_of_open hopen]
      rw [hperform]
      by_cases hfits : ∀ d, lifetime = some d → (Memory.deadline? clocks.monotonic d).isSome = true
      · rw [Memory.respond_put hfits]
        refine .inl ⟨rfl, fun key' hne => .memory rfl ?_⟩
        rw [Memory.live?_insert, if_neg hne]
      · rw [Memory.respond_put_of_overflow hfits]
        exact .inr ⟨by simp, .refl h clocks⟩
    | embedded d =>
      simp only [perform, Embedded.perform_of_open _ _ hopen, Embedded.respond]
      refine .inl ⟨trivial, fun key' hne => .embedded rfl ?_⟩
      rw [Table.get?_insert, if_neg (mt Bytes.ofText_inj.mp hne)]
    | server r =>
      obtain ⟨s, hanswer, hsound, hlive⟩ := Keyspace.answer_set h clocks.unixMillis key value lifetime
      rw [perform_server hopen (c := .put key value lifetime) (by simp)]
      simp only [Client.perform, Client.ask_eq hanswer, Client.settled]
      refine .inl ⟨rfl, fun key' hne => .server rfl hopen.symm h hsound ?_⟩
      rw [hlive]
      exact if_neg (mt Bytes.ofText_inj.mp hne)

theorem undisturbed_put (h : e.Undisturbed) (clocks : Clocks) (key : String) (value : Bytes)
    (lifetime : Option Span) : (e.perform clocks (.put key value lifetime)).2.Undisturbed :=
  ((SameUnder.refl h clocks key).put value lifetime).undisturbed

end Engine

end Gatehouse
