import Gatehouse.Proofs.Revocation.Durability
import Gatehouse.Proofs.Revocation.FirstTime

/-!
# Records that are revoked

The service saves a record only to revoke it, or because a caller brings a copy. So a stored record that is revoked
stays as it is as long as nobody brings a copy of it (`run_retains`), and to revoke it again by its id writes its marker
and does nothing else (`revokeById_of_revoked`).
-/

namespace Gatehouse

open Revocation

variable {α : Type} {s s' : Service} {m : Memory} {id : String} {q r : TokenRecord}

/-- A call brings no copy of the record with an id. -/
def ServiceCall.SparesRecord (id : String) (c : ServiceCall) : Prop := ∀ r ∈ c.copy?, r.id ≠ id

/-- An event brings no copy of the record with an id. -/
def ServiceEvent.SparesRecord (id : String) : ServiceEvent → Prop
  | call c => c.SparesRecord id
  | _ => True

namespace Service

/-- Records stay under their ids. -/
theorem keyed_run (h : s.store.Keyed) (x : Action α) : (s.run x).2.store.Keyed := by
  refine run_preserves (I := fun s => s.store.Keyed) (fun request s hs => ?_) x h
  rcases answer_store s request with hstore | ⟨q, -, hstore⟩
  · rw [hstore]
    exact hs
  · rw [hstore]
    exact hs.save q

/-- No record is removed. -/
theorem isSome_find?_run (h : (s.store.find? id).isSome = true) (x : Action α) :
    ((s.run x).2.store.find? id).isSome = true := by
  refine run_preserves (I := fun s => (s.store.find? id).isSome = true) (fun request s hs => ?_) x h
  rcases answer_store s request with hstore | ⟨q, -, hstore⟩
  · rw [hstore]
    exact hs
  · rw [hstore, TokenStore.find?_save]
    split
    · rfl
    · exact hs

end Service

namespace Revocation

/-! ## A record that stays -/

/-- What the service keeps to so that a record stays as it is: it makes certain calls of the engine, and saves no other
record under the id. -/
def retaining (calls : EngineCall → Prop) (r : TokenRecord) (now : Instant) : Discipline where
  calls := calls
  records q := q.id = r.id → q = r
  now := now

variable {calls : EngineCall → Prop} {J : Memory → Prop} {now : Instant}

/-- A record that is revoked may stay as it is while others are revoked. -/
theorem retaining_marks (hrev : r.isRevoked = true)
    (hmark : ∀ q lifetime, (q.id = r.id → q = r) → markerLifetime q.expiresAt now = .returned lifetime →
      calls (markerCall q.id lifetime)) : (retaining calls r now).Marks := by
  refine ⟨hmark, fun q t hunrevoked hq hid => ?_⟩
  rw [hq hid, hrev] at hunrevoked
  cases hunrevoked

/-- Over the engine in memory, an action that saves no other record under an id leaves the record as it is, and keeps
whatever its calls keep. -/
theorem run_retains (hJ : ∀ m c, J m → calls c → J (m.perform s.clocks.monotonic c).2) {x : Action α} {Q : α → Prop}
    (hx : x.Within (retaining calls r s.clocks.instant) Q) (hengine : ∃ m, s.engine = .memory m ∧ J m)
    (hkeyed : s.store.Keyed) (hr : s.store.Holds r) :
    (s.run x).2.clocks = s.clocks ∧ (∃ m, (s.run x).2.engine = .memory m ∧ J m) ∧ (s.run x).2.store.Keyed ∧
      (s.run x).2.store.Holds r := by
  have hrecords : ∀ e ∈ s.store.records.entries, e.2.id = r.id → e.2 = r := fun e he hid =>
    (hkeyed.holds ((Table.mem_entries_iff _ _ _).mp he)).eq hr hid
  have hkeeps := (Service.run_keeps hJ rfl hx ⟨rfl, hengine, hrecords⟩).1
  have hkeyed' := Service.keyed_run hkeyed x
  refine ⟨hkeeps.clocks_eq, hkeeps.engine, hkeyed', ?_⟩
  -- A record is under the id still, for none is removed, and it is this one, for no other is saved there.
  have hfound : (s.store.find? r.id).isSome = true := by
    rw [hr]
    rfl
  obtain ⟨q, hq⟩ := Option.isSome_iff_exists.mp (Service.isSome_find?_run hfound x)
  obtain rfl : q = r := hkeeps.records (r.id, q) ((Table.mem_entries_iff _ _ _).mpr hq) (hkeyed' _ q hq)
  exact hq

/-! ## Revoking by an id -/

/-- A revocation by an id finds the record, saves it as revoked unless it was before, and puts its marker into the
engine, which is open. -/
theorem revokeById_ok (hm : s.engine = .memory m) (h : s.run (revokeById id).run = (.returned (.ok q), s')) :
    ∃ r deadline, s.store.find? id = some r ∧ q = r.revokedBy s.clocks.instant ∧ s'.clocks = s.clocks ∧
      s'.store = (if r.isRevoked then s.store else s.store.save q) ∧ m.closed = false ∧
      markerDeadline? r.expiresAt s.clocks = some deadline ∧ s'.engine = .memory (m.withMarker r.id deadline) := by
  obtain ⟨found, s₀, hfind, h⟩ := Service.run_bind_ok h
  obtain ⟨hfound, hstore₀, hclocks₀, hengine₀⟩ := store_ok hfind
  cases found with
  | none => cases h
  | some r =>
    obtain ⟨hq, hstore⟩ := revoke_returns h
    obtain ⟨s₁, s₂, hclocks₁, hengine₁, hid, hexp, hmark, hengine, hclocks⟩ := revoke_ok h
    rw [← hclocks₁] at hmark
    have hm₁ : s₁.engine = .memory m := hengine₁.trans (hengine₀.trans hm)
    obtain ⟨_, -, hput, -⟩ := mark_ok hm₁ hmark
    obtain ⟨hclocks₂, -, m₂, hm₂, hmarked⟩ := writes_of_mark hm₁ hmark
    rw [hclocks₁, hclocks₀] at hmarked
    rw [hclocks₀] at hq
    rw [hstore₀] at hstore
    cases hmarked with
    | cons hdeadline rest =>
      cases rest
      rw [hexp] at hdeadline
      rw [hid] at hm₂
      refine ⟨r, _, hfound.symm, hq, ?_, hstore, Memory.open_of_perform_ok hput, hdeadline, hengine.trans hm₂⟩
      rw [hclocks, hclocks₂, hclocks₁, hclocks₀]

/-- To revoke a record again by its id writes its marker, and does nothing else. -/
theorem revokeById_of_revoked (hm : s.engine = .memory m) (hr : s.store.Holds r) (hrev : r.isRevoked = true)
    (h : s.run (revokeById r.id).run = (.returned (.ok q), s')) :
    q = r ∧ s'.clocks = s.clocks ∧ s'.store = s.store ∧ m.closed = false ∧
      ∃ deadline, markerDeadline? r.expiresAt s.clocks = some deadline ∧
        s'.engine = .memory (m.withMarker r.id deadline) := by
  obtain ⟨r', deadline, hfound, hq, hclocks, hstore, hopen, hdeadline, hengine⟩ := revokeById_ok hm h
  obtain rfl : r = r' := Option.some.inj (hr.symm.trans hfound)
  rw [hrev] at hstore
  rw [TokenRecord.revokedBy, if_pos hrev] at hq
  exact ⟨hq, hclocks, hstore, hopen, deadline, hdeadline, hengine⟩

end Revocation

end Gatehouse
