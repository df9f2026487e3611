import Gatehouse.Proofs.Authenticator.Verdict
import Gatehouse.Proofs.Revocation.Coverage
import Gatehouse.Proofs.Service.Exchanges
import Gatehouse.Startup

/-!
# Recovery at startup

The service starts only if the store and the cache answered every request of the restoration, and then every revoked
token is either expired or has its marker (`start_recovers`). As long as nothing but time passes and tokens are
verified, a token stays expired once it is, and its marker stays until then.
-/

namespace Gatehouse

variable {s s' : Service} {m : Memory} {r : TokenRecord} {t : AccessToken}

/-! ## Starting -/

namespace Service

/-- The service starts when its revocations are restored. -/
theorem start_ok (h : s.start = (.returned (.ok ()), s')) :
    ∃ total, s.run Revocation.load.run = (.returned (.ok total), s') := by
  unfold start at h
  revert h
  obtain ⟨o, s₁⟩ := s.run Revocation.load.run
  cases o with
  | abandoned => exact fun h => nomatch h
  | returned x =>
    cases x with
    | error e => exact fun h => nomatch h
    | ok total =>
      intro h
      cases h
      exact ⟨total, rfl⟩

theorem start_of_load {total : Nat} (h : s.run Revocation.load.run = (.returned (.ok total), s')) :
    s.start = (.returned (.ok ()), s') := by
  unfold start
  rw [h]
  rfl

/-- A failure to restore the revocations is why the service does not start. -/
theorem start_error {cause : ServiceError} (h : (s.run Revocation.load.run).1 = .returned (.error cause)) :
    s.start.1 = .returned (.error (.loading cause)) := by
  unfold start
  simp only [h]
  rfl

end Service

namespace Revocation

/-! ## Failures -/

theorem strict_mark (r : TokenRecord) (now : Instant) : Strict (mark r now) :=
  (Strict.ofOutcome _).bind fun _ => Strict.counted _ _

theorem strict_restore (now : Instant) (kind : TokenKind) : Strict (restore now kind) := by
  refine (Strict.store _).bind ?_
  intro records
  exact (Strict.forM records fun r _ => strict_mark r now).bind fun _ => Strict.pure _

/-- Loading passes over no failure of the store or the cache. -/
theorem strict_load : Strict load := by
  refine Strict.clock.bind ?_
  intro now
  refine (Strict.mapM _ fun kind _ => strict_restore now kind).bind ?_
  intro counts
  exact (Strict.record _).bind fun _ => Strict.pure _

/-! ## Markers -/

/-- The marker of a record is found in the engine, and it has left to live what is left of the margin after the expiry
of its token. -/
structure HasMarker (clocks : Clocks) (m : Memory) (r : TokenRecord) : Prop where
  found : (m.perform clocks.monotonic (.has (Keys.revokedToken r.id))).1 = .returned (.ok true)
  remaining : ∃ left, (m.perform clocks.monotonic (.remaining (Keys.revokedToken r.id))).1 = .returned (.ok left) ∧
    IsLeft r.expiresAt clocks.instant left

theorem Covered.hasMarker {clocks : Clocks} (h : Covered clocks m r) (hopen : m.closed = false)
    (hexp : r.isExpired clocks.instant = false) : HasMarker clocks m r := by
  obtain ⟨e, hlive, hdeadline⟩ := h.live? hexp
  constructor
  · rw [Memory.perform_eq_respond hopen, Memory.respond, hlive]
    rfl
  · refine ⟨_, ?_, isLeft_of_markerDeadline? hexp hdeadline⟩
    rw [Memory.perform_eq_respond hopen, Memory.respond, hlive]

end Revocation

/-! ## What happens after the start -/

/-- A token is verified, time passes, or expired entries are removed; and calls may be made to fail. -/
def ServiceEvent.IsQuiet : ServiceEvent → Prop
  | call (.verifyToken _ _) | prune | failEngine _ _ | failStore _ _ | advance _ => True
  | _ => False

namespace Service

/-- The engine in memory covers a record. -/
def Covers (s : Service) (r : TokenRecord) : Prop := ∃ m, s.engine = .memory m ∧ Revocation.Covered s.clocks m r

theorem Covers.apply {e : ServiceEvent} (h : s.Covers r) (he : e.IsQuiet) : (s.apply e).Covers r := by
  obtain ⟨m, hm, hcovered⟩ := h
  cases e with
  | call c =>
    cases c with
    | verifyToken token allowed =>
      obtain ⟨hclocks, -, hengine⟩ := Authenticator.verify_keeps token allowed hm
      refine ⟨m, hengine, ?_⟩
      unfold Service.apply ServiceCall.action
      rw [hclocks]
      exact hcovered
    | _ => exact he.elim
  | prune => exact ⟨_, engine_prune hm, hcovered.prune⟩
  | failEngine method fate => exact ⟨m, hm, hcovered⟩
  | failStore method fate => exact ⟨m, hm, hcovered⟩
  | advance d => exact ⟨_, engine_advance hm d, hcovered.advance d⟩
  | shiftWall nanos => exact he.elim
  | advanceMonotonic d => exact he.elim

theorem Covers.after {events : List ServiceEvent} (h : s.Covers r) (he : ∀ e ∈ events, e.IsQuiet) :
    (s.after events).Covers r := by
  induction events generalizing s with
  | nil => exact h
  | cons e rest ih =>
    exact ih (h.apply (he e List.mem_cons_self)) fun e' he' => he e' (List.mem_cons_of_mem _ he')

/-- No token of a record that is covered is accepted. -/
theorem Covers.not_verified {allowed : List AccountType} {a : AccountType} (h : s.Covers r) (ht : t.BelongsTo r) :
    (s.run (Authenticator.verify t allowed).run).1 ≠ .returned (.ok a) := by
  intro hrun
  obtain ⟨hlive, hhas⟩ := Authenticator.verify_ok (Prod.ext hrun rfl)
  obtain ⟨m, hm, hcovered⟩ := h
  cases hexp : r.isExpired s.clocks.instant with
  | true =>
    rw [ht.hasExpired hexp] at hlive
    cases hlive
  | false =>
    -- The engine is open, for it answered.
    have hanswer := (Service.callEngine_memory_ok hm hhas).1
    have hfound := (hcovered.hasMarker (Memory.open_of_perform_ok hanswer) hexp).found
    rw [← ht.id_eq, hanswer] at hfound
    cases hfound

end Service

namespace Revocation

/-- Recovery at startup is complete, and it fails closed. If the service starts, the gauge shows the number of revoked
records that have not expired, each of them has its marker, and no token of a revoked record is accepted as time passes.
If the store or the cache fails a request of the restoration, the service does not start. -/
theorem start_recovers (hm : s.engine = .memory m) (hopen : m.closed = false) (hkeyed : s.store.Keyed) :
    (∀ s', s.start = (.returned (.ok ()), s') →
      s'.metrics.loaded = some (s.store.outstanding s.clocks.instant).length ∧
      (∃ m', s'.engine = .memory m' ∧
        ∀ r ∈ s.store.outstanding s.clocks.instant, HasMarker s'.clocks m' r) ∧
      ∀ (r : TokenRecord) (events : List ServiceEvent) (t : AccessToken) (allowed : List AccountType)
        (a : AccountType), s.store.Holds r → r.isRevoked = true → (∀ e ∈ events, e.IsQuiet) → t.BelongsTo r →
          ((s'.after events).run (Authenticator.verify t allowed).run).1 ≠ .returned (.ok a)) ∧
    ∀ x ∈ s.exchanges load.run, ∀ cause, x.failure? = some cause → s.start.1 = .returned (.error (.loading cause)) := by
  refine ⟨fun s' hstart => ?_, fun x hx cause hcause => Service.start_error (strict_load s x hx cause hcause)⟩
  obtain ⟨total, hload⟩ := Service.start_ok hstart
  obtain ⟨hloaded, hwrites⟩ := load_ok hm hload
  obtain ⟨m', hm', hcovered⟩ := covered_of_load hm hkeyed hload
  have hclocks : s'.clocks = s.clocks := hwrites.clocks_eq
  have hopen' : m'.closed = false := by
    obtain ⟨m₁, hm₁, hmarked⟩ := hwrites.engine
    obtain rfl := Engine.memory.inj (hm'.symm.trans hm₁)
    rw [hmarked.closed_eq, hopen]
  rw [← hclocks] at hcovered
  refine ⟨hloaded, ⟨m', hm', fun r hr => ?_⟩, ?_⟩
  · obtain ⟨hholds, hrev, hexp⟩ := (TokenStore.mem_outstanding hkeyed).mp hr
    exact (hcovered r hholds hrev).hasMarker hopen' (by rw [hclocks]; exact hexp)
  · intro r events t allowed a hholds hrev hquiet ht
    have hcovers : s'.Covers r := ⟨m', hm', hcovered r hholds hrev⟩
    exact (hcovers.after hquiet).not_verified ht

/-- A record of a system's token that expires half a second after second 2000, revoked; one of an administrator's token
that never expires, revoked; one that expires when the service starts, revoked; and one that is not revoked. -/
def samplePopulation : List TokenRecord :=
  [{ id := "system_access_tokens:1", kind := .system, subject := "1", expiresAt := some ⟨2000, 500000000⟩,
     revokedAt := some ⟨900, 0⟩, createdAt := ⟨0, 0⟩ },
    { id := "admin_access_tokens:1", kind := .admin, subject := "1", expiresAt := none, revokedAt := some ⟨900, 0⟩,
      createdAt := ⟨0, 0⟩ },
    { id := "system_access_tokens:2", kind := .system, subject := "2", expiresAt := some ⟨1000, 0⟩,
      revokedAt := some ⟨900, 0⟩, createdAt := ⟨0, 0⟩ },
    { id := "system_access_tokens:3", kind := .system, subject := "3", expiresAt := none, revokedAt := none,
      createdAt := ⟨0, 0⟩ }]

/-- A service at second 1000 over an engine with an entry that stands where a marker is to be written. -/
def sampleStart : Service :=
  Service.new ⟨1000000000000, 7⟩
    (.memory ((Memory.start 7 none).perform 7 (.put "auth:revoked_admin_access_tokens:1" [] (some ⟨1⟩))).2)
    (TokenStore.ofList samplePopulation) fun _ => 0

/-- The same service, when the store fails to tell of the second kind. -/
def sampleFailingStart : Service :=
  { sampleStart with
    storeFaults := (FaultPlan.empty.add .revoked none).add .revoked (some (.internal "store is down")) }

/-- The two outstanding records are restored. The token of the first is rejected up to its expiry, and that of a record
that expired as the service started is rejected too; and with a store that fails the service does not start. -/
theorem start_recovers_records_of_both_kinds :
    sampleStart.start.2.metrics.loaded = some 2 ∧
      ((sampleStart.start.2.after [.advance (Span.ofSeconds 999)]).run
        (Authenticator.verify ⟨"system_access_tokens:1", "1", some ⟨2000, 0⟩, fun _ => none⟩ [.system]).run).1 ≠
          .returned (.ok .system) ∧
      (sampleStart.start.2.run
        (Authenticator.verify ⟨"system_access_tokens:2", "2", some ⟨1000, 0⟩, fun _ => none⟩ [.system]).run).1 ≠
          .returned (.ok .system) ∧
      sampleFailingStart.start.1 = .returned (.error (.loading (.internal "store is down"))) := by
  have hstarted : sampleStart.start.1 = .returned (.ok ()) := by rfl
  obtain ⟨hloaded, -, hrejected⟩ :=
    (start_recovers (s := sampleStart) rfl rfl (TokenStore.keyed_ofList _)).1 _ (Prod.ext hstarted rfl)
  have hfailed : (sampleFailingStart.exchanges load.run)[4]? =
      some ⟨.store (.revoked .system ⟨1000, 0⟩), .error (.internal "store is down")⟩ := by rfl
  refine ⟨hloaded.trans (by decide +kernel), ?_, ?_, ?_⟩
  · exact hrejected samplePopulation[0] [.advance (Span.ofSeconds 999)] _ [.system] .system (by decide +kernel) rfl
      (by simp [ServiceEvent.IsQuiet]) ⟨rfl, .inr rfl⟩
  · exact hrejected samplePopulation[2] [] _ [.system] .system (by decide +kernel) rfl (by simp) ⟨rfl, .inl rfl⟩
  · exact (start_recovers (s := sampleFailingStart) rfl rfl (TokenStore.keyed_ofList _)).2 _
      (List.mem_of_getElem? hfailed) _ rfl

end Revocation

end Gatehouse
