import Gatehouse.Proofs.Revocation.Safety

/-!
# What a verification tells

A verification asks the engine for nothing but the marker of its token, and changes nothing but the counts. What it
tells is decided by the expiry of the token, by whether the marker was found, and by the allowed types of account.
-/

namespace Gatehouse

/-- The second of an instant starts no later than the instant. -/
theorem Instant.floor_le {e now : Instant} (h : e ≤ now) : (⟨e.seconds, 0⟩ : Instant) ≤ now := by
  change Instant.le _ _ = true
  change Instant.le _ _ = true at h
  unfold Instant.le at h ⊢
  simp only [Bool.or_eq_true, Bool.and_eq_true, decide_eq_true_eq] at h ⊢
  omega

variable {s : Service} {m : Memory} {r : TokenRecord} {t : AccessToken}

/-! ## Tokens of a record -/

/-- A token is the token of a record: it has the id of the record, and its expiry, exactly or without the fraction of a
second. -/
structure AccessToken.BelongsTo (t : AccessToken) (r : TokenRecord) : Prop where
  id_eq : t.id = r.id
  expiresAt_eq : t.expiresAt = r.expiresAt ∨ t.expiresAt = r.expiresAt.map fun e => ⟨e.seconds, 0⟩

namespace AccessToken

theorem belongsTo_of_describes {c : TokenClaims} (h : Revocation.Describes r c)
    (hrange : ∀ t ∈ r.expiresAt, Instant.inRange t.seconds = true) : c.toAccessToken.BelongsTo r :=
  ⟨h.1, .inr (Revocation.expiresAt_of_describes h hrange)⟩

/-- A token has expired when its record has: a token never outlives its record. -/
theorem BelongsTo.hasExpired {now : Instant} (h : t.BelongsTo r) (hexp : r.isExpired now = true) :
    Authenticator.hasExpired t now = true := by
  unfold TokenRecord.isExpired at hexp
  unfold Authenticator.hasExpired
  cases hr : r.expiresAt with
  | none =>
    rw [hr] at hexp
    cases hexp
  | some e =>
    rw [hr] at hexp
    have hle : e ≤ now := of_decide_eq_true hexp
    rcases h.expiresAt_eq with heq | heq
    · rw [heq, hr]
      exact hexp
    · rw [heq, hr]
      exact decide_eq_true (Instant.floor_le hle)

end AccessToken

/-- Asking the engine in memory for a key changes no entry. -/
theorem Service.callEngine_has (hm : s.engine = .memory m) (key : String) :
    (s.callEngine (.has key)).2.engine = .memory m := by
  unfold Service.callEngine
  split
  · exact hm
  · rw [hm]
    have hperform : (m.perform s.clocks.monotonic (.has key)).2 = m := by
      unfold Memory.perform
      split <;> rfl
    exact congrArg Engine.memory hperform

namespace Authenticator

variable {allowed : List AccountType}

/-! ## Verdicts -/

/-- What a verification tells of a token, once it is known whether that is revoked. -/
def verdict (t : AccessToken) (allowed : List AccountType) (now : Instant) (revoked : Bool) :
    Except ServiceError AccountType :=
  if hasExpired t now then .error .tokenExpired
  else if revoked then .error .tokenRevoked
  else
    match allowed? t allowed with
    | some a => .ok a
    | none => .error .wrongAccountType

/-- A token that has expired is rejected before the cache is asked for it. -/
theorem run_verify (s : Service) (t : AccessToken) (allowed : List AccountType) :
    s.run (verify t allowed).run =
      if hasExpired t s.clocks.instant then (.returned (.error .tokenExpired), s)
      else s.run (accept t allowed).run := by
  cases hexp : t.expiresAt.isSome with
  | false =>
    have hlive : hasExpired t s.clocks.instant = false := by
      rw [Option.isSome_eq_false_iff, Option.isNone_iff_eq_none] at hexp
      rw [hasExpired, hexp]
      rfl
    rw [verify_of_unexpiring hexp, hlive]
    rfl
  | true =>
    have hclock : s.run (liftM Action.clock : ServiceAction Instant).run = (.returned (.ok s.clocks.instant), s) := rfl
    rw [verify_of_expiring hexp, Service.run_bind_of_ok hclock]
    split <;> rfl

/-- A token that has not expired is judged by the answer to one call of the engine. -/
theorem run_accept (s : Service) (hlive : hasExpired t s.clocks.instant = false) :
    s.run (accept t allowed).run =
      match s.callEngine (.has (Keys.revokedToken t.id)) with
      | (.returned r, s₁) =>
        (.returned (match r with
          | .ok revoked => verdict t allowed s.clocks.instant revoked
          | .error e => .error (.cache e)),
          { s₁ with metrics := s₁.metrics.record (.operation .has (.ofResult r)) })
      | (.abandoned, s₁) => (.abandoned, s₁) := by
  unfold accept Revocation.isRevoked Cache.has verdict
  rw [Service.run_bind, Service.run_liftCache, Service.run_counted, hlive]
  cases s.callEngine (.has (Keys.revokedToken t.id)) with
  | mk o s₁ =>
    cases o with
    | abandoned => rfl
    | returned r =>
      cases r with
      | error e => rfl
      | ok revoked =>
        cases revoked with
        | true => rfl
        | false =>
          cases hallowed : allowed? t allowed with
          | none => rfl
          | some a => rfl

/-- A verification over the engine in memory changes nothing but the counts, and the plan of the calls that fail. -/
theorem verify_keeps (t : AccessToken) (allowed : List AccountType) (hm : s.engine = .memory m) :
    (s.run (verify t allowed).run).2.clocks = s.clocks ∧ (s.run (verify t allowed).run).2.store = s.store ∧
      (s.run (verify t allowed).run).2.engine = .memory m := by
  rw [run_verify]
  cases hlive : hasExpired t s.clocks.instant with
  | true => exact ⟨rfl, rfl, hm⟩
  | false =>
    have hclocks := s.callEngine_clocks (.has (Keys.revokedToken t.id))
    have hstore := s.callEngine_store (.has (Keys.revokedToken t.id))
    have hengine := Service.callEngine_has hm (Keys.revokedToken t.id)
    rw [if_neg Bool.false_ne_true, run_accept s hlive]
    cases hcall : s.callEngine (.has (Keys.revokedToken t.id)) with
    | mk o s₁ =>
      rw [hcall] at hclocks hstore hengine
      cases o with
      | returned r => exact ⟨hclocks, hstore, hengine⟩
      | abandoned => exact ⟨hclocks, hstore, hengine⟩

end Authenticator

end Gatehouse
