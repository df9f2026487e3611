import Gatehouse.Proofs.Cache.Closed
import Gatehouse.Proofs.Cache.Engines
import Gatehouse.Proofs.Server.Keyspace
import Gatehouse.Proofs.Server.Lease

/-!
# What is seen of a key

Of a key it can be seen whether it is live and, if it is, how long it still has. Calls that scan, or remove other keys,
change nothing about that (`Engine.lease?_of_spares`). A take of the key that fails leaves it as it was, and any other
one tells whether it was live and leaves nothing of it (`Engine.take_cases`). A server is reckoned to be used by nobody
else.
-/

namespace Gatehouse

/-! ## A server that nobody else uses -/

/-- What a client makes of a reply. -/
def Client.understood {α : Type} (read : Reply → Option α) (r : Reply) : Except CacheError α :=
  (read r).elim (.error .server) .ok

theorem Client.ask_eq {σ α : Type} {peer : Peer σ} {client : Client} {read : Reply → Option α} {c : Command}
    {r : Reply} {s s' : σ} (h : peer c s = (.reply r, s')) :
    ask peer client read c s = (understood read r, s') := by
  unfold understood
  cases hread : read r with
  | some a => exact ask_of_reply h hread
  | none => simp [ask, request, send, h, replies, isSilence, reply?, hread]

/-- The keys of a page that can be read are those that the server shows. -/
theorem Reply.mem_of_page {cursor : Reply} {page : List Bytes} {next : Nat} {keys : List String}
    (h : page? (.array [cursor, .array (page.map .data)]) = some (next, keys)) {key : String} (hkey : key ∈ keys) :
    Bytes.ofText key ∈ page := by
  simp only [page?, texts?, Option.bind_eq_bind, Option.bind_eq_some_iff] at h
  obtain ⟨_, -, keys', hkeys, h⟩ := h
  cases h
  obtain ⟨_, hitem, htext⟩ := mem_of_mapM_some hkeys hkey
  obtain ⟨b, hb, rfl⟩ := List.mem_map.mp hitem
  rw [Bytes.ofText_of_text? htext]
  exact hb

namespace Keyspace

variable {s : Keyspace} {now : Nat}

/-- A key space in which no answers are laid down executes what it is sent. -/
theorem answer_eq (hs : server.Sound s) (c : Command) :
    s.answer now c = { s with received := c.words :: s.received }.execute now c := by
  unfold answer
  simp only [hs.1, List.lookup_nil]

/-- It replies to commands about keys as documented, and stays without such answers. -/
theorem answer_command (hs : server.Sound s) (now : Nat) {c : Command} (hc : c.Proper now) :
    ∃ s', s.answer now c = (.reply (c.reply now (s.live? now)), s') ∧ server.Sound s' ∧
      s'.live? now = c.effect now (s.live? now) := by
  rw [answer_eq hs]
  obtain ⟨hreply, heffect⟩ := execute_documented { s with received := c.words :: s.received } hc
  refine ⟨_, Prod.ext hreply rfl, ?_, heffect⟩
  cases c with
  | auth user password => exact hc.elim
  | select space => exact hc.elim
  | scan cursor pattern count => exact hc.elim
  | _ => exact hs

theorem server_steady : server.Steady where
  scan {now s} cursor pattern count hs := by
    change server.Sound (s.answer now (.scan cursor pattern count)).2 ∧
      (s.answer now (.scan cursor pattern count)).2.live? now = s.live? now
    rw [answer_eq hs]
    simp only [execute]
    split
    · -- No keys are to vanish at the end of the scan.
      unfold vanish
      rw [hs.2]
      exact ⟨⟨hs.1, rfl⟩, rfl⟩
    · exact ⟨hs, rfl⟩
  set {now s n} key value hs hpos _ := by
    have hmillis : ∀ millis ∈ some n, 0 < millis := fun millis hn => Option.some.inj hn ▸ hpos
    refine ⟨_, ?_, .inr ⟨answer_eq hs _, live?_put hmillis _ _⟩⟩
    exact hs

variable {client : Client} {stem : String}

/-- What a client finds on a page is under the text that it asked for. -/
theorem startsWith_of_page (hs : server.Sound s) {cursor next : Nat} {page : List String} {s' : Keyspace}
    (h : Client.ask (Keyspace.answer now) client Reply.page? (client.scanCommand stem cursor) s =
      (.ok (next, page), s')) {key : String} (hkey : key ∈ page) : startsWith stem key = true := by
  rw [Client.ask_eq (answer_eq hs _), Prod.mk.injEq] at h
  obtain ⟨hread, -⟩ := h
  unfold Client.understood at hread
  generalize hpage : Reply.page? _ = read at hread
  cases read with
  | none => cases hread
  | some found =>
    cases hread
    have hmem := (List.mem_filter.mp (Reply.mem_of_page hpage hkey)).2
    rw [Glob.admits_startingWith, Bytes.isPrefixOf_ofText] at hmem
    exact hmem

/-- A walk finds nothing but keys under the text that it goes through. -/
theorem startsWith_of_walk (hs : server.Sound s) {fuel cursor : Nat} {found keys : List String}
    (hfound : ∀ key ∈ found, startsWith stem key = true)
    (h : (Client.walk (Keyspace.answer now) client stem fuel cursor found s).1 = some (.ok keys)) :
    ∀ key ∈ keys, startsWith stem key = true := by
  induction fuel generalizing cursor found s with
  | zero => cases h
  | succ fuel ih =>
    have hsound : server.Sound
        (Client.ask (Keyspace.answer now) client Reply.page? (client.scanCommand stem cursor) s).2 :=
      (server_steady.scan cursor _ client.pageSize hs).1
    unfold Client.walk at h
    split at h
    · cases h
    · rename_i next page s' heq
      rw [heq] at hsound
      have hpage (key : String) (hkey : key ∈ Client.addPage found page) : startsWith stem key = true :=
        (Client.mem_addPage.mp hkey).elim (hfound key) (startsWith_of_page hs heq)
      split at h
      · cases h
        exact hpage
      · exact ih hsound hpage h

end Keyspace

/-! ## Calls that spare a key -/

/-- A call of those that scan, or remove other keys. -/
def EngineCall.Spares (key : String) : EngineCall → Prop
  | .keys _ => True
  | .take key' | .delete key' => key' ≠ key
  | _ => False

theorem EngineCall.Spares.outside {c : EngineCall} {key : String} (h : c.Spares key) :
    Memory.Outside (· = key) c := by
  cases c <;> first | exact h | exact h.elim

/-- An open store stays open at a call that spares a key, and keeps its entry. -/
theorem Embedded.keeps_of_spares {s : Embedded} (h : s.isOpen = true) (now : Nat) {c : EngineCall} {key : String}
    (hc : c.Spares key) :
    (s.perform now c).2.isOpen = true ∧ live? (s.perform now c).2.disk now key = live? s.disk now key := by
  have herase {key' : String} (hne : key' ≠ key) :
      live? (s.disk.erase (Bytes.ofText key')) now key = live? s.disk now key := by
    unfold live?
    rw [stored?_erase, if_neg (Ne.symm hne)]
  rw [perform_of_open now c h]
  cases c with
  | keys stem => exact ⟨h, rfl⟩
  | take key' =>
    simp only [respond]
    split
    · exact ⟨h, rfl⟩
    · exact ⟨h, herase hc⟩
  | delete key' => exact ⟨h, herase hc⟩
  | _ => exact hc.elim

/-- A server that nobody else uses goes on like that, and a call that spares a key keeps its entry. -/
theorem Remote.keeps_of_spares {r : Remote} (hs : Keyspace.server.Sound r.server) (now fuel : Nat) {c : EngineCall}
    {key : String} (hc : c.Spares key) :
    Keyspace.server.Keeps now key r.server (r.client.perform (Keyspace.answer now) fuel c r.server).2 := by
  have hdel {key' : String} (hne : key' ≠ key) :
      Keyspace.server.Keeps now key r.server (r.server.answer now (.del key')).2 := by
    obtain ⟨s', hanswer, hsound, hlive⟩ := Keyspace.answer_command hs now (c := .del key') trivial
    rw [hanswer]
    exact ⟨hsound, (congrFun hlive _).trans (Server.effect_put_of_ne hne none _)⟩
  cases c with
  | keys stem =>
    have hwalk : Keyspace.server.Keeps now key r.server
        (Client.walk (Keyspace.answer now) r.client stem fuel 0 [] r.server).2 :=
      Server.keeps_walk Keyspace.server_steady hs stem fuel 0 []
    simp only [Client.perform]
    split <;> (rename_i heq; rw [heq] at hwalk; exact hwalk)
  | take key' => exact hdel hc
  | delete key' => exact hdel hc
  | _ => exact hc.elim

/-! ## Scans and takes of a store -/

/-- What a scan of a store finds is under the text that it asked for. -/
theorem Embedded.startsWith_of_scan {disk : Table Bytes Bytes} {now : Nat} {stem : String}
    {found : List (String × Stored)} (h : scan disk now stem = .ok found) :
    ∀ entry ∈ found, startsWith stem entry.1 = true := by
  intro entry hentry
  obtain ⟨read, hread, h⟩ := exists_of_bind_ok h
  cases h
  obtain ⟨_, hmem, rfl⟩ := List.mem_filterMap.mp hentry
  obtain ⟨item, hunder, hscan⟩ := mem_of_mapM_ok hread hmem
  have hstem : (Bytes.ofText stem).isPrefixOf item.1 = true := (List.mem_filter.mp hunder).2
  unfold scanEntry at hscan
  split at hscan
  · cases hscan
  · rename_i key htext
    obtain ⟨e, -, hscan⟩ := exists_of_bind_ok hscan
    rw [← Bytes.ofText_of_text? htext, Bytes.isPrefixOf_ofText] at hstem
    split at hscan
    · cases hscan
    · cases hscan
      exact hstem

/-- A take from an open store leaves nothing of its key. It tells whether the key was live, or fails at an entry that is
none. -/
theorem Embedded.respond_take_cases (s : Embedded) (now : Nat) (key : String) :
    (s.respond now (.take key)).2.isOpen = s.isOpen ∧ live? (s.respond now (.take key)).2.disk now key = none ∧
      ((s.respond now (.take key)).1 = .ok (live? s.disk now key).isSome ∨
        (∃ e, (s.respond now (.take key)).1 = .error e) ∧ live? s.disk now key = none) := by
  have hgone : live? (s.disk.erase (Bytes.ofText key)) now key = none := by
    unfold live?
    rw [stored?_erase, if_pos rfl, Option.filter_none]
  cases hraw : s.disk.get? (Bytes.ofText key) with
  | none =>
    have hnone : live? s.disk now key = none := by
      unfold live? stored?
      rw [hraw, Option.bind_none, Option.filter_none]
    have hrespond : s.respond now (.take key) = (.ok false, s) := by simp only [respond, hraw]
    rw [hrespond, hnone]
    exact ⟨rfl, rfl, .inl rfl⟩
  | some raw =>
    have hlive : live? s.disk now key = (Stored.ofBytes? raw).filter fun e => !e.isExpired now := by
      unfold live? stored?
      rw [hraw, Option.bind_some]
    have hrespond : s.respond now (.take key) =
        ((Stored.parse key raw).map fun e => !e.isExpired now,
          { s with disk := s.disk.erase (Bytes.ofText key) }) := by
      simp only [respond, hraw]
    rw [hrespond, hlive]
    refine ⟨rfl, hgone, ?_⟩
    unfold Stored.parse
    cases Stored.ofBytes? raw with
    | none => exact .inr ⟨⟨_, rfl⟩, rfl⟩
    | some e =>
      refine .inl (congrArg Except.ok ?_)
      rw [Option.isSome_filter]
      rfl

/-! ## What is seen -/

/-- What the server says of the time that an entry still has. -/
def Client.timeLeft (now : Nat) (e : KeyspaceEntry) : Except CacheError (Option Span) :=
  (understood Reply.word? (.int (e.deadline.elim (-1) fun d => d - now))).bind lifetime

namespace Engine

variable {clocks : Clocks} {e : Engine} {key : String}

/-- Nobody else uses the engine: no answers are laid down at the server, and no keys are to vanish there. -/
def Undisturbed : Engine → Prop
  | server r => Keyspace.server.Sound r.server
  | _ => True

/-- How long a key still has, as far as the engine can tell. A key that is not live has nothing. -/
def lease? (clocks : Clocks) (e : Engine) (key : String) : Option (EngineCall.Answer (.remaining key)) :=
  match (e.perform clocks (.has key)).1 with
  | .returned (.ok true) => some (e.perform clocks (.remaining key)).1
  | _ => none

theorem lease?_memory {m : Memory} (h : m.closed = false) :
    (memory m).lease? clocks key = (m.live? clocks.monotonic key).map fun e =>
      .returned (.ok (e.deadline.map fun d => ⟨d - clocks.monotonic⟩)) := by
  simp only [lease?, perform, Memory.perform, h, Bool.false_eq_true, if_false, Memory.respond]
  cases m.live? clocks.monotonic key <;> rfl

theorem lease?_embedded {s : Embedded} (h : s.isOpen = true) :
    (embedded s).lease? clocks key = (Embedded.live? s.disk clocks.unixMillis key).map fun e =>
      .returned (.ok (e.remaining clocks.unixMillis)) := by
  simp only [lease?, perform, Embedded.perform, h, if_true, Embedded.respond, Embedded.read, Embedded.live?,
    Embedded.stored?, Embedded.classify]
  cases s.disk.get? (Bytes.ofText key) with
  | none => rfl
  | some raw =>
    simp only [Option.bind_some]
    cases hentry : Stored.ofBytes? raw with
    | none => rfl
    | some e =>
      simp only [Option.filter_some]
      cases e.isExpired clocks.unixMillis <;> rfl

theorem lease?_server {r : Remote} (h : r.isOpen = true) (hs : Keyspace.server.Sound r.server) :
    (server r).lease? clocks key = (r.server.live? clocks.unixMillis (Bytes.ofText key)).map fun e =>
      .returned (Client.timeLeft clocks.unixMillis e) := by
  obtain ⟨_, hhas, -⟩ := Keyspace.answer_command hs clocks.unixMillis (c := .holds key) trivial
  obtain ⟨_, hleft, -⟩ := Keyspace.answer_command hs clocks.unixMillis (c := .pttl key) trivial
  simp only [lease?, perform, Remote.perform, h, if_true, Client.perform, Client.ask_eq hhas, Client.ask_eq hleft,
    Client.understood, Client.truth?_reply_holds, Client.settled, Option.elim_some]
  cases hentry : r.server.live? clocks.unixMillis (Bytes.ofText key) with
  | none => rfl
  | some e =>
    have hreply : (Command.pttl key).reply clocks.unixMillis (r.server.live? clocks.unixMillis) =
        .int (e.deadline.elim (-1) fun d => d - clocks.unixMillis) := by
      obtain ⟨value, deadline⟩ := e
      simp only [Command.reply, hentry]
      cases deadline <;> rfl
    rw [hreply]
    rfl

/-- A call of an open connection that is not a close. -/
theorem perform_server {r : Remote} (h : r.isOpen = true) {c : EngineCall} (hc : c ≠ .close) :
    (server r).perform clocks c =
      ((r.client.perform (Keyspace.answer clocks.unixMillis) r.server.scanBound c r.server).1,
        server ⟨r.client, true,
          (r.client.perform (Keyspace.answer clocks.unixMillis) r.server.scanBound c r.server).2⟩) := by
  have hmethod : decide (c.method ≠ .close) = true := by
    cases c <;> first | exact absurd rfl hc | rfl
  simp only [perform, Remote.perform, h, if_true, hmethod]

/-! ## Calls of an engine -/

/-- A call that spares a key changes nothing about what is seen of it. -/
theorem lease?_of_spares (h : e.Undisturbed) {c : EngineCall} (hc : c.Spares key) :
    (e.perform clocks c).2.Undisturbed ∧ (e.perform clocks c).2.lease? clocks key = e.lease? clocks key := by
  cases hopen : e.isOpen with
  | false =>
    rw [perform_of_closed hopen]
    exact ⟨h, rfl⟩
  | true =>
    cases e with
    | memory m =>
      have hclosed : m.closed = false := by simpa [isOpen] using hopen
      have halike := Memory.Alike.frame m clocks.monotonic hc.outside
      refine ⟨trivial, ?_⟩
      change (memory (m.perform clocks.monotonic c).2).lease? clocks key = _
      rw [lease?_memory hclosed, lease?_memory (halike.closed_eq.symm.trans hclosed),
        halike.live?_eq key rfl _ (Nat.le_refl _)]
    | embedded s =>
      obtain ⟨hstill, hlive⟩ := Embedded.keeps_of_spares hopen clocks.unixMillis hc
      refine ⟨trivial, ?_⟩
      change (embedded (s.perform clocks.unixMillis c).2).lease? clocks key = _
      rw [lease?_embedded hopen, lease?_embedded hstill, hlive]
    | server r =>
      have hkeeps := Remote.keeps_of_spares h clocks.unixMillis r.server.scanBound hc
      have hclose : c ≠ .close := fun heq => (heq ▸ hc : EngineCall.close.Spares key)
      rw [perform_server hopen hclose]
      refine ⟨hkeeps.sound, ?_⟩
      rw [lease?_server hopen h, lease?_server rfl hkeeps.sound]
      exact congrArg _ hkeeps.entry

/-- A take fails and changes nothing about its key, or it tells whether the key was live and leaves nothing of it. -/
theorem take_cases (h : e.Undisturbed) (clocks : Clocks) (key : String) :
    (e.perform clocks (.take key)).2.Undisturbed ∧
      ((∃ err, (e.perform clocks (.take key)).1 = .returned (.error err)) ∧
          (e.perform clocks (.take key)).2.lease? clocks key = e.lease? clocks key ∨
        (e.perform clocks (.take key)).1 = .returned (.ok (e.lease? clocks key).isSome) ∧
          (e.perform clocks (.take key)).2.lease? clocks key = none) := by
  cases hopen : e.isOpen with
  | false =>
    rw [perform_of_closed hopen]
    exact ⟨h, .inl ⟨⟨_, rfl⟩, rfl⟩⟩
  | true =>
    cases e with
    | memory m =>
      have hclosed : m.closed = false := by simpa [isOpen] using hopen
      have hperform : (memory m).perform clocks (.take key) =
          (.returned (.ok (m.live? clocks.monotonic key).isSome),
            memory { m with entries := m.entries.erase key }) := by
        simp only [perform, Memory.perform, hclosed, Bool.false_eq_true, if_false, Memory.respond]
      have hgone : ({ m with entries := m.entries.erase key } : Memory).live? clocks.monotonic key = none := by
        rw [Memory.live?_erase, if_pos rfl]
      rw [hperform]
      refine ⟨trivial, .inr ⟨?_, ?_⟩⟩
      · rw [lease?_memory hclosed, Option.isSome_map]
      · refine (lease?_memory (m := { m with entries := m.entries.erase key }) hclosed).trans ?_
        rw [hgone, Option.map_none]
    | embedded s =>
      have hperform : (embedded s).perform clocks (.take key) =
          (.returned (s.respond clocks.unixMillis (.take key)).1,
            embedded (s.respond clocks.unixMillis (.take key)).2) := by
        simp only [perform, Embedded.perform_of_open _ _ hopen]
      rw [hperform]
      refine ⟨trivial, ?_⟩
      obtain ⟨hstill, hgone, htold⟩ := Embedded.respond_take_cases s clocks.unixMillis key
      rw [lease?_embedded hopen, lease?_embedded (hstill.trans hopen), hgone, Option.isSome_map]
      rcases htold with htold | ⟨⟨err, herr⟩, hnone⟩
      · exact .inr ⟨congrArg _ htold, rfl⟩
      · rw [hnone]
        exact .inl ⟨⟨err, congrArg _ herr⟩, rfl⟩
    | server r =>
      obtain ⟨s', hanswer, hsound, hlive⟩ :=
        Keyspace.answer_command h clocks.unixMillis (c := .del key) trivial
      have hgone : s'.live? clocks.unixMillis (Bytes.ofText key) = none := (congrFun hlive _).trans (if_pos rfl)
      have hclose : EngineCall.take key ≠ .close := by
        intro heq
        cases heq
      have hperform : (server r).perform clocks (.take key) =
          (.returned (.ok (r.server.live? clocks.unixMillis (Bytes.ofText key)).isSome),
            server ⟨r.client, true, s'⟩) := by
        rw [perform_server hopen hclose]
        simp only [Client.perform, Client.ask_eq hanswer, Client.understood, Client.unsigned?_reply_del]
        cases (r.server.live? clocks.unixMillis (Bytes.ofText key)).isSome <;> rfl
      rw [hperform]
      refine ⟨hsound, .inr ⟨?_, ?_⟩⟩
      · rw [lease?_server hopen h, Option.isSome_map]
      · rw [lease?_server rfl hsound, hgone, Option.map_none]

/-- A scan of an engine that nobody else uses lists nothing but keys under its text. -/
theorem startsWith_of_scan (h : e.Undisturbed) {stem : String} {keys : List String}
    (hkeys : (e.perform clocks (.keys stem)).1 = .returned (.ok keys)) :
    ∀ key ∈ keys, startsWith stem key = true := by
  cases hopen : e.isOpen with
  | false =>
    rw [perform_of_closed hopen] at hkeys
    cases hkeys
  | true =>
    cases e with
    | memory m =>
      have hclosed : m.closed = false := by simpa [isOpen] using hopen
      simp only [perform, Memory.perform, hclosed, Bool.false_eq_true, if_false, Memory.respond] at hkeys
      cases hkeys
      exact fun key hkey => (Memory.mem_keys_liveUnder.mp hkey).1
    | embedded s =>
      have hperform : (embedded s).perform clocks (.keys stem) =
          (.returned ((Embedded.scan s.disk clocks.unixMillis stem).map fun l => l.map Prod.fst), embedded s) := by
        simp only [perform, Embedded.perform_of_open _ _ hopen, Embedded.respond]
      rw [hperform] at hkeys
      cases hscan : Embedded.scan s.disk clocks.unixMillis stem with
      | error err =>
        rw [hscan] at hkeys
        cases hkeys
      | ok found =>
        rw [hscan] at hkeys
        cases hkeys
        intro key hkey
        obtain ⟨entry, hentry, rfl⟩ := List.mem_map.mp hkey
        exact Embedded.startsWith_of_scan hscan entry hentry
    | server r =>
      have hclose : EngineCall.keys stem ≠ .close := by
        intro heq
        cases heq
      rw [perform_server hopen hclose] at hkeys
      simp only [Client.perform] at hkeys
      split at hkeys
      · cases hkeys
      · rename_i heq
        cases hkeys
        exact Keyspace.startsWith_of_walk h (List.forall_mem_nil _) (congrArg Prod.fst heq)

end Engine

end Gatehouse
