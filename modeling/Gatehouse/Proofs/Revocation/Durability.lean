import Gatehouse.Proofs.Startup.Restart

/-!
# Revocations that outlive the cache

A revocation saves the record that it was given unless that says already that it is revoked, and does not look at what
the store holds. So it is durable just if the record was not revoked or was in the store as it is
(`revocation_durable_iff`), and then the markers that a new cache gets at startup include that of its token.
-/

namespace Gatehouse

variable {s s' : Service} {m : Memory} {r r' : TokenRecord}

namespace Revocation

/-! ## What a revocation leaves in the store -/

/-- A call of the store that succeeds was made. -/
theorem store_ok {c : StoreCall} {a : c.Reply} (h : s.run (store c).run = (.returned (.ok a), s')) :
    a = (s.store.perform c).1 ∧ s'.store = (s.store.perform c).2 ∧ s'.clocks = s.clocks ∧ s'.engine = s.engine := by
  have hrun : s.run (store c).run = s.answer (.store c) := Service.run_request _
  rw [hrun] at h
  simp only [Service.answer, Service.callStore] at h
  split at h
  · cases h
  · cases h
    exact ⟨rfl, rfl, rfl, rfl⟩

/-- A call of the store that does not succeed was not made. -/
theorem store_not_ok {c : StoreCall} {o : Outcome (Except ServiceError c.Reply)}
    (hrun : s.run (store c).run = (o, s')) (ho : ∀ a, o ≠ .returned (.ok a)) :
    s'.store = s.store ∧ s'.engine = s.engine := by
  rw [show s.run (store c).run = s.answer (.store c) from Service.run_request _] at hrun
  simp only [Service.answer, Service.callStore] at hrun
  split at hrun
  · cases hrun
    exact ⟨rfl, rfl⟩
  · cases hrun
    exact absurd rfl (ho _)

/-- Writing a marker leaves the records as they were, whatever the engine and however it ends. -/
theorem mark_keeps_store (s : Service) (r : TokenRecord) (now : Instant) :
    (s.run (mark r now).run).2.store = s.store := by
  unfold mark
  rw [Service.run_bind]
  cases markerLifetime r.expiresAt now with
  | abandoned => rfl
  | returned lifetime =>
    change (s.run (CacheAction.lift (Cache.counted .put (markerCall r.id lifetime))).run).2.store = s.store
    rw [Service.run_liftCache, Service.run_counted]
    have hstore := s.callEngine_store (markerCall r.id lifetime)
    generalize s.callEngine (markerCall r.id lifetime) = a at hstore ⊢
    obtain ⟨o, s₁⟩ := a
    cases o <;> exact hstore

/-- A revocation returns the record as revoked, and saves it unless it was revoked before. -/
theorem revoke_returns (h : s.run (revoke r).run = (.returned (.ok r'), s')) :
    r' = r.revokedBy s.clocks.instant ∧ s'.store = if r.isRevoked then s.store else s.store.save r' := by
  obtain ⟨now, s₀, h₀, h⟩ := Service.run_bind_ok h
  cases Service.run_lift_ok h₀
  have hrest {s₁ : Service} {r₁ : TokenRecord} (h : s₁.run (do
      mark r₁ s.clocks.instant
      Action.record (.revocation r.kind)
      return r₁ : ServiceAction TokenRecord).run = (.returned (.ok r'), s')) : r' = r₁ ∧ s'.store = s₁.store := by
    obtain ⟨_, s₂, hmark, h⟩ := Service.run_bind_ok h
    obtain ⟨_, s₃, hrecord, h⟩ := Service.run_bind_ok h
    cases Service.run_lift_ok hrecord
    cases h
    have hstore := mark_keeps_store s₁ r' s.clocks.instant
    rw [hmark] at hstore
    exact ⟨rfl, hstore⟩
  unfold TokenRecord.revokedBy
  cases hrev : r.isRevoked with
  | true =>
    rw [hrev] at h
    exact hrest h
  | false =>
    rw [hrev] at h
    obtain ⟨_, s₁, hsave, h⟩ := Service.run_bind_ok h
    obtain ⟨rfl, hstore⟩ := hrest h
    obtain ⟨-, hsaved, -⟩ := store_ok hsave
    exact ⟨rfl, hstore.trans hsaved⟩

/-! ## What a new cache gets -/

/-- Over a new engine, the markers of all outstanding records are restored if each of them has a deadline. -/
theorem load_fresh {l : Ledger} (interval : Option Span) (entropy : Nat → Nat)
    (hdeadlines : ∀ q ∈ l.store.outstanding l.clocks.instant,
      ∃ deadline, markerDeadline? q.expiresAt l.clocks = some deadline) :
    ∃ total s, (fresh l interval entropy).run load.run = (.returned (.ok total), s) := by
  obtain ⟨total, s, -, hload, -⟩ := Completes.load hdeadlines _ _ (calm_fresh l interval entropy) rfl
  exact ⟨total, s, hload⟩

/-- As long as the token of a record has not expired, a cache in sync tells whether the record is revoked. -/
theorem InSync.run_isRevoked (h : InSync s m) (hr : s.store.Holds r) (hexp : r.isExpired s.clocks.instant = false) :
    (s.run (isRevoked r.id).run).1 = .returned (.ok r.isRevoked) := by
  unfold isRevoked Cache.has
  rw [Service.run_liftCache, Service.run_counted, h.callEngine_eq, Memory.respond, h.isSome_live? hr hexp]
  rfl

/-- A revocation that succeeds is durable just if the record was not revoked, or was in the store as it is: otherwise
the store does not hold the record that is returned. When it is durable, a new cache into which the markers are loaded
before the token expires tells that the token is revoked. -/
theorem revocation_durable_iff (hkeyed : s.store.Keyed) (hrun : s.run (revoke r).run = (.returned (.ok r'), s')) :
    r'.isRevoked = true ∧
    (s'.store.Holds r' ↔ r.isRevoked = false ∨ s.store.Holds r) ∧
    ∀ (clocks : Clocks) (interval : Option Span) (entropy : Nat → Nat),
      s'.store.Holds r' → r'.isExpired clocks.instant = false →
      (∀ q ∈ s'.store.outstanding clocks.instant, ∃ deadline, markerDeadline? q.expiresAt clocks = some deadline) →
        ∃ total s₁, (fresh ⟨clocks, s'.store⟩ interval entropy).run load.run = (.returned (.ok total), s₁) ∧
          (s₁.run (isRevoked r'.id).run).1 = .returned (.ok true) := by
  obtain ⟨rfl, hstore⟩ := revoke_returns hrun
  have hrevoked : (r.revokedBy s.clocks.instant).isRevoked = true := TokenRecord.isRevoked_revokedBy r _
  refine ⟨hrevoked, ?_, fun clocks interval entropy hholds hexp hdeadlines => ?_⟩
  · cases hrev : r.isRevoked with
    | true =>
      have hsame : r.revokedBy s.clocks.instant = r := if_pos hrev
      rw [hrev, if_pos rfl] at hstore
      rw [hstore, hsame]
      simp
    | false =>
      rw [hrev, if_neg Bool.false_ne_true] at hstore
      rw [hstore]
      exact iff_of_true (TokenStore.holds_save.mpr (.inl rfl)) (.inl rfl)
  · have hkeyed' : s'.store.Keyed := by
      rw [hstore]
      split
      · exact hkeyed
      · exact hkeyed.save _
    obtain ⟨total, s₁, hload⟩ := load_fresh (l := ⟨clocks, s'.store⟩) interval entropy hdeadlines
    obtain ⟨⟨m, hsync⟩, hledger⟩ := inSync_of_start hkeyed' (Service.start_of_load hload)
    have hclocks : s₁.clocks = clocks := congrArg Ledger.clocks hledger
    have hstore₁ : s₁.store = s'.store := congrArg Ledger.store hledger
    rw [← hstore₁] at hholds
    rw [← hclocks] at hexp
    exact ⟨total, s₁, hload, (hsync.run_isRevoked hholds hexp).trans (by rw [hrevoked])⟩

/-- A service at the start of 1970 without any record. -/
def sampleNewService : Service :=
  Service.new ⟨0, 0⟩ (.memory (Memory.start 0 none)) TokenStore.empty fun _ => 0

/-- The record is revoked by a service that does not have it; a new cache into which the markers are loaded an hour
later, half a second before the token expires, tells that it is revoked. -/
theorem revocation_durable_of_new_record :
    ∃ total s, (fresh ⟨⟨3600000000000, 0⟩, (sampleNewService.run (revoke sampleRecord).run).2.store⟩ none
        fun _ => 0).run load.run = (.returned (.ok total), s) ∧
      (s.run (isRevoked "admin_access_tokens:1").run).1 = .returned (.ok true) := by
  have hrevoked : (sampleNewService.run (revoke sampleRecord).run).1 =
      .returned (.ok (sampleRecord.revokedBy ⟨0, 0⟩)) := by rfl
  have hall : ∀ q ∈ (sampleNewService.run (revoke sampleRecord).run).2.store.outstanding
      (Instant.ofUnixNanos 3600000000000), q = sampleRecord.revokedBy ⟨0, 0⟩ := by decide +kernel
  obtain ⟨-, hdurable, hrestored⟩ := revocation_durable_iff TokenStore.keyed_empty (Prod.ext hrevoked rfl)
  refine hrestored ⟨3600000000000, 0⟩ none (fun _ => 0) (hdurable.mpr (.inl rfl)) (by decide +kernel) ?_
  intro q hq
  rw [hall q hq]
  exact ⟨_, rfl⟩

/-- A record that says that it is revoked, and is not in the store, is revoked with success but not saved; a new cache
into which the markers are loaded does not tell that it is revoked. -/
theorem revocation_not_durable_of_revoked_copy :
    (sampleNewService.run (revoke (sampleRecord.revokedBy ⟨0, 0⟩)).run).1 =
        .returned (.ok (sampleRecord.revokedBy ⟨0, 0⟩)) ∧
      (sampleNewService.run (revoke (sampleRecord.revokedBy ⟨0, 0⟩)).run).2.store.find? sampleRecord.id = none ∧
      (((fresh (sampleNewService.run (revoke (sampleRecord.revokedBy ⟨0, 0⟩)).run).2.ledger none
        fun _ => 0).run load.run).2.run (isRevoked sampleRecord.id).run).1 = .returned (.ok false) :=
  ⟨rfl, rfl, rfl⟩

end Revocation

end Gatehouse
