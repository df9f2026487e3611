import Gatehouse.Proofs.Authenticator.Verdict
import Gatehouse.Proofs.Revocation.Effect

/-!
# The ledger that the cache stands for

What has to be told of a token can be read off the clocks and the records alone: the ledger. A service whose cache is in
sync with its records tells just that (`InSync.verify_tells`), and it stays in sync while records are added, tokens are
revoked and verified, and time passes (`InSync.after`). So the cache can be thrown away and built again.
-/

namespace Gatehouse

/-- What outlives the cache. -/
structure Ledger where
  clocks : Clocks
  store : TokenStore

/-- What of a service outlives its cache. -/
def Service.ledger (s : Service) : Ledger := ⟨s.clocks, s.store⟩

namespace Ledger

/-- What has to be told of a token. -/
def verdict (l : Ledger) (t : AccessToken) (allowed : List AccountType) : Except ServiceError AccountType :=
  Authenticator.verdict t allowed l.clocks.instant ((l.store.find? t.id).any TokenRecord.isRevoked)

/-- A record that is not revoked is added under a new id, the token of a record is revoked whose marker has a deadline,
a token is verified, time passes, or expired entries are removed. -/
def Admits (l : Ledger) : ServiceEvent → Prop
  | .call (.saveRecord r) => r.isRevoked = false ∧ l.store.find? r.id = none
  | .call (.revokeById id) =>
    ∃ r deadline, l.store.find? id = some r ∧ Revocation.markerDeadline? r.expiresAt l.clocks = some deadline
  | .call (.verifyToken _ _) | .advance _ | .prune => True
  | _ => False

/-- The ledger after an event that it admits. -/
def apply (l : Ledger) : ServiceEvent → Ledger
  | .call (.saveRecord r) => { l with store := l.store.save r }
  | .call (.revokeById id) =>
    match l.store.find? id with
    | some r => { l with store := l.store.save (r.revokedBy l.clocks.instant) }
    | none => l
  | .advance d => { l with clocks := ⟨l.clocks.wall + d.nanos, l.clocks.monotonic + d.nanos⟩ }
  | _ => l

/-- Every event of a run is admitted where it happens. -/
def AdmitsRun (l : Ledger) : List ServiceEvent → Prop
  | [] => True
  | e :: rest => l.Admits e ∧ (l.apply e).AdmitsRun rest

/-- The ledger after a run. -/
def after (l : Ledger) (events : List ServiceEvent) : Ledger := events.foldl apply l

end Ledger

/-! ## Sweeps of the engine in memory -/

namespace Memory

variable {m : Memory} {now : Nat} {key : String} {e : Entry}

theorem get?_of_prune (h : (m.prune now).entries.get? key = some e) : m.entries.get? key = some e := by
  unfold prune at h
  rw [Table.get?_filter] at h
  exact (Option.filter_eq_some_iff.mp h).1

/-- A sweep adds no entry. -/
theorem get?_of_tick (h : (m.tick now).entries.get? key = some e) : m.entries.get? key = some e := by
  rcases m.entries_tick now with heq | heq
  · rw [heq] at h
    exact h
  · rw [heq] at h
    exact get?_of_prune h

end Memory

/-! ## A cache that is in sync -/

namespace Revocation

variable {s s' : Service} {m : Memory} {r : TokenRecord} {t : AccessToken} {e : ServiceEvent}

/-- The cache agrees with the records: every revoked record is covered, and every marker is that of a revoked record. -/
structure InSync (s : Service) (m : Memory) : Prop extends s.Calm m where
  keyed : s.store.Keyed
  covered : ∀ r, s.store.Holds r → r.isRevoked = true → Covered s.clocks m r
  recorded : ∀ id e, m.entries.get? (Keys.revokedToken id) = some e →
    ∃ r, s.store.Holds r ∧ r.id = id ∧ r.isRevoked = true

namespace InSync

/-- As long as a record has not expired, its marker is live just if it is revoked. -/
theorem isSome_live? (h : InSync s m) (hr : s.store.Holds r) (hexp : r.isExpired s.clocks.instant = false) :
    (m.live? s.clocks.monotonic (Keys.revokedToken r.id)).isSome = r.isRevoked := by
  cases hrev : r.isRevoked with
  | true =>
    obtain ⟨e, hlive, -⟩ := (h.covered r hr hrev).live? hexp
    rw [hlive]
    rfl
  | false =>
    have habsent : m.entries.get? (Keys.revokedToken r.id) = none := by
      refine Option.eq_none_iff_forall_ne_some.mpr fun e he => ?_
      obtain ⟨r', hr', hid, hrev'⟩ := h.recorded r.id e he
      rw [hr'.eq hr hid, hrev] at hrev'
      cases hrev'
    unfold Memory.live?
    rw [habsent]
    rfl

/-- A verification of the token of a record tells what the ledger has to tell. -/
theorem verify_tells (h : InSync s m) (hr : s.store.Holds r) (ht : t.BelongsTo r) (allowed : List AccountType) :
    (s.run (Authenticator.verify t allowed).run).1 = .returned (s.ledger.verdict t allowed) := by
  have hrecord : (s.store.find? t.id).any TokenRecord.isRevoked = r.isRevoked := by
    rw [ht.id_eq, hr]
    rfl
  unfold Ledger.verdict Service.ledger
  rw [Authenticator.run_verify, hrecord]
  cases hlive : Authenticator.hasExpired t s.clocks.instant with
  | true =>
    unfold Authenticator.verdict
    rw [if_pos rfl, if_pos hlive]
  | false =>
    have hexp : r.isExpired s.clocks.instant = false := by
      cases hexp : r.isExpired s.clocks.instant with
      | false => rfl
      | true =>
        rw [ht.hasExpired hexp] at hlive
        cases hlive
    have hhas : (m.respond s.clocks.monotonic (.has (Keys.revokedToken t.id))).1 = .returned (.ok r.isRevoked) := by
      rw [Memory.respond, ht.id_eq, h.isSome_live? hr hexp]
    rw [if_neg Bool.false_ne_true, Authenticator.run_accept s hlive, h.callEngine_eq, hhas]

/-! ## What happens to it -/

theorem save (h : InSync s m) (hrev : r.isRevoked = false) (hnew : s.store.find? r.id = none) :
    InSync { s with store := s.store.save r } m := by
  refine ⟨⟨h.engine, h.isOpen, h.engineFaults, h.storeFaults⟩, h.keyed.save r, fun r' hr' hrev' => ?_,
    fun id e he => ?_⟩
  · rcases TokenStore.holds_save.mp hr' with rfl | ⟨-, hr'⟩
    · rw [hrev] at hrev'
      cases hrev'
    · exact h.covered r' hr' hrev'
  · obtain ⟨r', hr', hid, hrev'⟩ := h.recorded id e he
    have hne : r'.id ≠ r.id := by
      intro heq
      unfold TokenStore.Holds at hr'
      rw [heq, hnew] at hr'
      cases hr'
    exact ⟨r', TokenStore.holds_save.mpr (.inr ⟨hne, hr'⟩), hid, hrev'⟩

theorem revoke (h : InSync s m) {deadline : Option Nat} {metrics : Metrics}
    (hdeadline : markerDeadline? r.expiresAt s.clocks = some deadline) :
    InSync { s with
      engine := .memory (m.withMarker r.id deadline)
      store := s.store.save (r.revokedBy s.clocks.instant)
      metrics } (m.withMarker r.id deadline) := by
  refine ⟨⟨rfl, h.isOpen, h.engineFaults, h.storeFaults⟩, h.keyed.save _, fun r' hr' hrev' => ?_, fun id e he => ?_⟩
  · rcases TokenStore.holds_save.mp hr' with rfl | ⟨hne, hr'⟩
    · refine .inr ⟨⟨Json.encode true, deadline⟩, ?_, ?_⟩
      · rw [TokenRecord.id_revokedBy, Memory.get?_withMarker, if_pos rfl]
      · rw [TokenRecord.expiresAt_revokedBy]
        exact hdeadline
    · -- The marker of another record is under another key.
      rw [TokenRecord.id_revokedBy] at hne
      refine (h.covered r' hr' hrev').imp_right ?_
      rintro ⟨e, he, hdeadline'⟩
      refine ⟨e, ?_, hdeadline'⟩
      rw [Memory.get?_withMarker, if_neg (fun heq => hne (Keys.revokedToken_inj.mp heq)), he]
  · rw [Memory.get?_withMarker] at he
    by_cases hid : id = r.id
    · refine ⟨r.revokedBy s.clocks.instant, TokenStore.holds_save.mpr (.inl rfl), ?_, ?_⟩
      · rw [TokenRecord.id_revokedBy, hid]
      · exact TokenRecord.isRevoked_revokedBy r _
    · rw [if_neg (fun heq => hid (Keys.revokedToken_inj.mp heq))] at he
      obtain ⟨r', hr', hid', hrev'⟩ := h.recorded id e he
      refine ⟨r', TokenStore.holds_save.mpr (.inr ⟨?_, hr'⟩), hid', hrev'⟩
      rw [TokenRecord.id_revokedBy, hid']
      exact hid

theorem verify (h : InSync s m) (t : AccessToken) (allowed : List AccountType) :
    InSync (s.run (Authenticator.verify t allowed).run).2 m ∧
      (s.run (Authenticator.verify t allowed).run).2.ledger = s.ledger := by
  obtain ⟨hclocks, hstore, hengine⟩ := Authenticator.verify_keeps t allowed h.engine
  have hcalm := h.toCalm.run (Authenticator.verify t allowed).run hengine h.isOpen
  refine ⟨⟨hcalm, ?_, ?_, ?_⟩, ?_⟩
  · rw [hstore]
    exact h.keyed
  · rw [hstore, hclocks]
    exact h.covered
  · rw [hstore]
    exact h.recorded
  · unfold Service.ledger
    rw [hclocks, hstore]

theorem prune (h : InSync s m) :
    InSync { s with engine := .memory (m.prune s.clocks.monotonic) } (m.prune s.clocks.monotonic) := by
  refine ⟨⟨rfl, h.isOpen, h.engineFaults, h.storeFaults⟩, h.keyed, fun r hr hrev => ?_, fun id e he => ?_⟩
  · exact (h.covered r hr hrev).prune
  · exact h.recorded id e (Memory.get?_of_prune he)

theorem advance (h : InSync s m) (d : Span) : InSync (s.advance d) (m.tick (s.clocks.monotonic + d.nanos)) := by
  refine ⟨⟨Service.engine_advance h.engine d, ?_, h.engineFaults, h.storeFaults⟩, h.keyed, fun r hr hrev => ?_,
    fun id e he => ?_⟩
  · rw [Memory.closed_tick, h.isOpen]
  · exact (h.covered r hr hrev).advance d
  · exact h.recorded id e (Memory.get?_of_tick he)

/-- A service in sync does what the ledger does, and it stays in sync. -/
theorem apply (h : InSync s m) (he : s.ledger.Admits e) :
    (∃ m', InSync (s.apply e) m') ∧ (s.apply e).ledger = s.ledger.apply e := by
  cases e with
  | call c =>
    cases c with
    | saveRecord r =>
      obtain ⟨hrev, hnew⟩ := he
      have hrun : s.apply (.call (.saveRecord r)) = { s with store := s.store.save r } :=
        congrArg Prod.snd (h.run_store (.save r))
      rw [hrun]
      exact ⟨⟨m, h.save hrev hnew⟩, rfl⟩
    | revokeById id =>
      obtain ⟨r, deadline, hfind, hdeadline⟩ := he
      change s.store.find? id = some r at hfind
      change markerDeadline? r.expiresAt s.clocks = some deadline at hdeadline
      have hrun : s.apply (.call (.revokeById id)) = (s.run (Revocation.revokeById id).run).2 := rfl
      have hledger : s.ledger.apply (.call (.revokeById id)) =
          ⟨s.clocks, s.store.save (r.revokedBy s.clocks.instant)⟩ := by
        simp only [Ledger.apply, Service.ledger, hfind]
      rw [hrun, hledger, h.run_revokeById, hfind]
      simp only [h.run_revoke (h.keyed.holds hfind), hdeadline]
      exact ⟨⟨_, h.revoke hdeadline⟩, rfl⟩
    | verifyToken t allowed =>
      obtain ⟨hsync, hledger⟩ := h.verify t allowed
      exact ⟨⟨m, hsync⟩, hledger⟩
    | _ => exact he.elim
  | prune =>
    have hrun : s.apply .prune = { s with engine := .memory (m.prune s.clocks.monotonic) } := by
      unfold Service.apply Engine.prune
      rw [h.engine]
    rw [hrun]
    exact ⟨⟨_, h.prune⟩, rfl⟩
  | advance d => exact ⟨⟨_, h.advance d⟩, rfl⟩
  | _ => exact he.elim

/-- A service stays in sync through a run that the ledger admits. -/
theorem after {events : List ServiceEvent} (h : InSync s m) (he : s.ledger.AdmitsRun events) :
    (∃ m', InSync (s.after events) m') ∧ (s.after events).ledger = s.ledger.after events := by
  induction events generalizing s m with
  | nil => exact ⟨⟨m, h⟩, rfl⟩
  | cons e rest ih =>
    obtain ⟨he, hrest⟩ := he
    obtain ⟨⟨m₁, h₁⟩, hledger⟩ := h.apply he
    rw [← hledger] at hrest
    obtain ⟨hsync, hafter⟩ := ih h₁ hrest
    refine ⟨hsync, hafter.trans ?_⟩
    rw [hledger]
    rfl

end InSync

end Revocation

end Gatehouse
