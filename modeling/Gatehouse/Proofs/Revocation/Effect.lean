import Gatehouse.Proofs.Revocation.Coverage
import Gatehouse.Proofs.Service.Calm

/-!
# What a revocation does when nothing fails

A revocation saves the record and writes its marker. It is abandoned if there is no deadline for the marker, and goes
through otherwise.
-/

namespace Gatehouse

/-- The record, revoked since a time unless it was revoked before. -/
def TokenRecord.revokedBy (r : TokenRecord) (now : Instant) : TokenRecord :=
  if r.isRevoked then r else { r with revokedAt := some now }

namespace TokenRecord

variable (r : TokenRecord) (now : Instant)

@[simp]
theorem id_revokedBy : (r.revokedBy now).id = r.id := by
  unfold revokedBy
  split <;> rfl

@[simp]
theorem expiresAt_revokedBy : (r.revokedBy now).expiresAt = r.expiresAt := by
  unfold revokedBy
  split <;> rfl

@[simp]
theorem isRevoked_revokedBy : (r.revokedBy now).isRevoked = true := by
  cases h : r.isRevoked with
  | true => rw [revokedBy, if_pos h, h]
  | false =>
    rw [revokedBy, if_neg (by rw [h]; exact Bool.false_ne_true)]
    rfl

end TokenRecord

namespace Service.Calm

variable {s : Service} {m : Memory} {r : TokenRecord}

/-- A marker is written if there is a deadline for it. -/
theorem run_mark (h : s.Calm m) (r : TokenRecord) :
    s.run (Revocation.mark r s.clocks.instant).run =
      match Revocation.markerDeadline? r.expiresAt s.clocks with
      | some deadline =>
        (.returned (.ok ()),
          { s with
            engine := .memory (m.withMarker r.id deadline)
            metrics := s.metrics.record (.operation .put .ok) })
      | none => (.abandoned, s) := by
  unfold Revocation.mark
  rw [run_bind]
  cases hlife : Revocation.markerLifetime r.expiresAt s.clocks.instant with
  | abandoned =>
    have hnone : Revocation.markerDeadline? r.expiresAt s.clocks = none := by
      unfold Revocation.markerDeadline?
      rw [hlife]
    rw [hnone]
    rfl
  | returned lifetime =>
    have hcounted : s.run (CacheAction.lift (Cache.put (Keys.revokedToken r.id) true lifetime)).run =
        s.run (CacheAction.lift (Cache.counted .put (Revocation.markerCall r.id lifetime))).run := rfl
    have hstarted : s.run (liftM (Action.ofOutcome (.returned lifetime)) : ServiceAction (Option Span)).run =
        (.returned (.ok lifetime), s) := rfl
    simp only [hstarted, hcounted]
    rw [run_liftCache, run_counted, h.callEngine_eq, ← Memory.perform_eq_respond h.isOpen,
      Memory.perform_markerCall h.isOpen hlife]
    cases Revocation.markerDeadline? r.expiresAt s.clocks with
    | some deadline => rfl
    | none =>
      simp only [← h.engine]
      rfl

/-- A revocation goes through if there is a deadline for the marker. -/
theorem run_revoke (h : s.Calm m) (hr : s.store.Holds r) :
    s.run (Revocation.revoke r).run =
      match Revocation.markerDeadline? r.expiresAt s.clocks with
      | some deadline =>
        (.returned (.ok (r.revokedBy s.clocks.instant)),
          { s with
            engine := .memory (m.withMarker r.id deadline)
            store := s.store.save (r.revokedBy s.clocks.instant)
            metrics := (s.metrics.record (.operation .put .ok)).record (.revocation r.kind) })
      | none => (.abandoned, { s with store := s.store.save (r.revokedBy s.clocks.instant) }) := by
  have hrest {s₁ : Service} (h₁ : s₁.Calm m) (hclocks : s₁.clocks = s.clocks) (r₁ : TokenRecord) :
      s₁.run (do
        Revocation.mark r₁ s.clocks.instant
        Action.record (.revocation r.kind)
        return r₁ : ServiceAction TokenRecord).run =
      match Revocation.markerDeadline? r₁.expiresAt s.clocks with
      | some deadline =>
        (.returned (.ok r₁),
          { s₁ with
            engine := .memory (m.withMarker r₁.id deadline)
            metrics := (s₁.metrics.record (.operation .put .ok)).record (.revocation r.kind) })
      | none => (.abandoned, s₁) := by
    rw [run_bind, ← hclocks, h₁.run_mark]
    cases Revocation.markerDeadline? r₁.expiresAt s₁.clocks <;> rfl
  have hclock : s.run (liftM Action.clock : ServiceAction Instant).run = (.returned (.ok s.clocks.instant), s) := rfl
  unfold Revocation.revoke
  rw [run_bind_of_ok hclock]
  cases hrev : r.isRevoked with
  | true =>
    have hsame : r.revokedBy s.clocks.instant = r := if_pos hrev
    rw [hsame, TokenStore.save_of_holds hr]
    exact hrest h rfl r
  | false =>
    have hnew : r.revokedBy s.clocks.instant = { r with revokedAt := some s.clocks.instant } :=
      if_neg (by rw [hrev]; exact Bool.false_ne_true)
    rw [hnew]
    have hsave := h.run_store (.save { r with revokedAt := some s.clocks.instant })
    have hsaved : ({ s with store := s.store.save { r with revokedAt := some s.clocks.instant } } : Service).Calm m :=
      ⟨h.engine, h.isOpen, h.engineFaults, h.storeFaults⟩
    exact (run_bind_of_ok hsave).trans (hrest hsaved rfl _)

/-- Revoking by an id finds the record that the store holds under it. -/
theorem run_revokeById (h : s.Calm m) (id : String) :
    s.run (Revocation.revokeById id).run =
      match s.store.find? id with
      | some r => s.run (Revocation.revoke r).run
      | none => (.returned (.error (.notFound ("access token " ++ id))), s) := by
  have hfind : s.run (Revocation.store (.find id)).run = (.returned (.ok (s.store.find? id)), s) :=
    h.run_store (.find id)
  unfold Revocation.revokeById
  rw [run_bind_of_ok hfind]
  cases s.store.find? id <;> rfl

/-- Revoking by an id that is found goes through just if there is a deadline for the marker. -/
theorem revokeById_ok_iff {id : String} {r' : TokenRecord} (h : s.Calm m) (hkeyed : s.store.Keyed) :
    (s.run (Revocation.revokeById id).run).1 = .returned (.ok r') ↔
      ∃ r deadline, s.store.find? id = some r ∧ Revocation.markerDeadline? r.expiresAt s.clocks = some deadline ∧
        r.revokedBy s.clocks.instant = r' := by
  rw [h.run_revokeById]
  cases hfind : s.store.find? id with
  | none => exact ⟨fun hok => (nomatch hok), fun ⟨_, _, hsome, _⟩ => (nomatch hsome)⟩
  | some r =>
    simp only [h.run_revoke (hkeyed.holds hfind)]
    cases hdeadline : Revocation.markerDeadline? r.expiresAt s.clocks with
    | none =>
      refine ⟨fun hok => (nomatch hok), ?_⟩
      rintro ⟨_, _, hsome, hsome', -⟩
      rw [← Option.some.inj hsome, hdeadline] at hsome'
      cases hsome'
    | some deadline =>
      constructor
      · intro hok
        cases hok
        exact ⟨r, deadline, rfl, hdeadline, rfl⟩
      · rintro ⟨_, _, hsome, -, rfl⟩
        cases hsome
        rfl

end Service.Calm

end Gatehouse
