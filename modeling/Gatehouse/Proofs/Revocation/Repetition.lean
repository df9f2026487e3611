import Gatehouse.Proofs.Revocation.Records

/-!
# Revocations that are repeated

A revocation is settled once the record is saved as revoked and the marker is in the engine with the deadline that its
margin is pegged to. As long as the margin is not over and the clocks move together, it stays settled whatever the
service does (`Settled.after`): markers are written again and again, each time with a lifetime from another moment, and
the deadline is the same. So to revoke the token again changes nothing (`repeated_revocation_changes_nothing`).
-/

namespace Gatehouse

open Revocation

/-- An event brings no copy of the record with an id, does not close the cache, and moves the clocks together if at all.
-/
def ServiceEvent.LeavesRevocation (id : String) : ServiceEvent → Prop
  | call c => c.SparesRecord id ∧ c ≠ .closeCache
  | shiftWall _ | advanceMonotonic _ => False
  | _ => True

variable {s s' s'' : Service} {m : Memory} {id key : String} {q r : TokenRecord} {clocks : Clocks}
  {deadline : Option Nat} {offset : Int} {events : List ServiceEvent}

namespace Memory

/-- A marker that is in the engine may be written again with the same deadline. -/
theorem withMarker_eq_self (h : m.entries.get? (Keys.revokedToken id) = some ⟨Json.encode true, deadline⟩) :
    m.withMarker id deadline = m := by
  have hentries : m.entries.insert (Keys.revokedToken id) ⟨Json.encode true, deadline⟩ = m.entries := by
    refine Table.ext_get? fun key => ?_
    rw [Table.get?_insert]
    split
    · rename_i heq
      rw [heq, h]
    · rfl
  unfold withMarker
  rw [hentries]

/-- What a call may do so that an entry stays under a key: it puts nothing else there, and removes nothing there. -/
def confirms (key : String) (e : Entry) (now : Nat) : EngineCall → Prop
  | .put key' value lifetime => key' = key → (⟨value, lifetime.map fun d => now + d.nanos⟩ : Entry) = e
  | .delete key' | .take key' => key' ≠ key
  | .flush | .close => False
  | _ => True

theorem get?_perform_of_confirms {e : Entry} {now : Nat} (h : m.entries.get? key = some e) {c : EngineCall}
    (hc : confirms key e now c) : (m.perform now c).2.entries.get? key = some e := by
  have hbecomes := m.becomes_perform now c
  generalize (m.perform now c).2 = m' at hbecomes ⊢
  cases hbecomes with
  | same c => exact h
  | inserted key' value lifetime =>
    rw [Table.get?_insert]
    split
    · rename_i heq
      rw [hc heq.symm]
    · exact h
  | deleted key' | taken key' =>
    rw [Table.get?_erase, if_neg (Ne.symm hc)]
    exact h
  | flushed => exact hc.elim
  | closed => exact hc.elim

end Memory

theorem ServiceEvent.LeavesRevocation.wall_le {e : ServiceEvent} (he : e.LeavesRevocation id) :
    s.clocks.wall ≤ (s.apply e).clocks.wall := by
  cases e with
  | call c => exact Int.le_of_eq (congrArg Clocks.wall (s.run_clocks c.action.run)).symm
  | advance d => exact Int.le_add_of_nonneg_right (Int.natCast_nonneg _)
  | shiftWall nanos => exact he.elim
  | advanceMonotonic d => exact he.elim
  | _ => exact Int.le_refl _

theorem Service.wall_le_after (he : ∀ e ∈ events, e.LeavesRevocation id) :
    s.clocks.wall ≤ (s.after events).clocks.wall := by
  induction events generalizing s with
  | nil => exact Int.le_refl _
  | cons e rest ih =>
    exact Int.le_trans (he e List.mem_cons_self).wall_le (ih fun e' he' => he e' (List.mem_cons_of_mem _ he'))

namespace Revocation

/-- The deadline of a marker is what the engine makes of its lifetime. -/
theorem map_lifetime_of_markerDeadline? {expiresAt : Option Instant} {lifetime : Option Span}
    (hlife : markerLifetime expiresAt clocks.instant = .returned lifetime)
    (h : markerDeadline? expiresAt clocks = some deadline) :
    (Cache.lifetime lifetime).map (fun d => clocks.monotonic + d.nanos) = deadline := by
  unfold markerDeadline? at h
  rw [hlife] at h
  cases hspan : Cache.lifetime lifetime with
  | none =>
    simp only [hspan] at h
    exact Option.some.inj h
  | some d =>
    simp only [hspan] at h
    obtain ⟨last, hlast, hsome⟩ := Option.map_eq_some_iff.mp h
    rw [← hsome, Memory.eq_of_deadline? hlast]
    rfl

/-- The record is saved, and its marker is in the engine with a deadline, while the wall clock is ahead by an offset. -/
structure Settled (r : TokenRecord) (offset : Int) (deadline : Option Nat) (s : Service) : Prop where
  offset_eq : s.clocks.offset = offset
  engine : ∃ m, s.engine = .memory m ∧
    m.entries.get? (Keys.revokedToken r.id) = some ⟨Json.encode true, deadline⟩
  keyed : s.store.Keyed
  holds : s.store.Holds r

/-- Calls on the keys of another part leave every marker. -/
theorem confirms_opens {e : Memory.Entry} {now : Nat} {t : Instant} {p : Keys.Part} (hp : p ≠ .marker) :
    (retaining (Memory.confirms (Keys.revokedToken r.id) e now) r t).Opens p.Holds := by
  refine Discipline.opens_of_marker r.id hp (fun _ => trivial) ?_
  intro c key hc hne
  cases c <;> cases hc
  case has => trivial
  case fetch => trivial
  case put => exact fun heq => absurd heq hne
  case delete => exact hne
  case take => exact hne
  case remaining => trivial

/-- Every marker that is written for the token is the one that is there, and those of other tokens are under other keys.
-/
theorem confirms_marks (hrev : r.isRevoked = true) (h : markerDeadline? r.expiresAt clocks = some deadline) :
    (retaining (Memory.confirms (Keys.revokedToken r.id) ⟨Json.encode true, deadline⟩ clocks.monotonic) r
      clocks.instant).Marks := by
  refine retaining_marks hrev fun q lifetime hq hlife hkey => ?_
  rw [hq (Keys.revokedToken_inj.mp hkey)] at hlife
  rw [map_lifetime_of_markerDeadline? hlife h]

/-- A revocation stays settled at every event, as long as the margin is not over. -/
theorem Settled.apply {e : ServiceEvent} (h : Settled r offset deadline s) (hrev : r.isRevoked = true)
    (hpegged : pegged? r.expiresAt offset = some deadline) (he : e.LeavesRevocation r.id)
    (hmargin : WithinMargin r.expiresAt (s.apply e).clocks.instant) : Settled r offset deadline (s.apply e) := by
  obtain ⟨m, hm, hmarker⟩ := h.engine
  -- A marker that is written now gets the deadline that is there already.
  have hnow : markerDeadline? r.expiresAt s.clocks = some deadline := by
    rw [markerDeadline?_of_withinMargin (hmargin.of_later he.wall_le), h.offset_eq, hpegged]
  cases e with
  | call c =>
    have habides := ServiceCall.abides (c := c) (confirms_opens (by decide)) (confirms_opens (by decide))
      (confirms_marks hrev hnow) (fun _ => trivial) (fun hclose => absurd hclose he.2)
      fun q hq hid => absurd hid (he.1 q hq)
    obtain ⟨hclocks, hengine, hkeyed, hholds⟩ := run_retains
      (J := fun m => m.entries.get? (Keys.revokedToken r.id) = some ⟨Json.encode true, deadline⟩)
      (fun _ _ hJ hc => Memory.get?_perform_of_confirms hJ hc) habides ⟨m, hm, hmarker⟩ h.keyed h.holds
    exact ⟨hclocks ▸ h.offset_eq, hengine, hkeyed, hholds⟩
  | prune =>
    have hkept := Memory.get?_prune_of_isLive hmarker (isLive_of_markerDeadline? hnow)
    exact ⟨h.offset_eq, ⟨_, Service.engine_prune hm, hkept⟩, h.keyed, h.holds⟩
  | failEngine method fate => exact ⟨h.offset_eq, h.engine, h.keyed, h.holds⟩
  | failStore method fate => exact ⟨h.offset_eq, h.engine, h.keyed, h.holds⟩
  | advance d =>
    have hoffset : (s.advance d).clocks.offset = offset := by
      rw [← h.offset_eq]
      simp only [Service.advance, Clocks.offset]
      omega
    have hlater : markerDeadline? r.expiresAt (s.advance d).clocks = some deadline := by
      change WithinMargin r.expiresAt (s.advance d).clocks.instant at hmargin
      rw [markerDeadline?_of_withinMargin hmargin, hoffset, hpegged]
    have hkept := Memory.get?_tick_of_isLive hmarker (isLive_of_markerDeadline? hlater)
    exact ⟨hoffset, ⟨_, Service.engine_advance hm d, hkept⟩, h.keyed, h.holds⟩
  | shiftWall nanos => exact he.elim
  | advanceMonotonic d => exact he.elim

theorem Settled.after (h : Settled r offset deadline s) (hrev : r.isRevoked = true)
    (hpegged : pegged? r.expiresAt offset = some deadline) (he : ∀ e ∈ events, e.LeavesRevocation r.id)
    (hmargin : WithinMargin r.expiresAt (s.after events).clocks.instant) :
    Settled r offset deadline (s.after events) := by
  induction events generalizing s with
  | nil => exact h
  | cons e rest ih =>
    have hrest : ∀ e' ∈ rest, e'.LeavesRevocation r.id := fun e' he' => he e' (List.mem_cons_of_mem _ he')
    have hnext : WithinMargin r.expiresAt (s.apply e).clocks.instant := hmargin.of_later (Service.wall_le_after hrest)
    exact ih (h.apply hrev hpegged (he e List.mem_cons_self) hnext) hrest hmargin

/-- A revocation by an id that succeeds before the margin is over is settled. -/
theorem settled_of_revokeById (hm : s.engine = .memory m) (hkeyed : s.store.Keyed)
    (h : s.run (revokeById id).run = (.returned (.ok r), s')) (hmargin : WithinMargin r.expiresAt s'.clocks.instant) :
    r.id = id ∧ r.isRevoked = true ∧
      ∃ deadline, pegged? r.expiresAt s'.clocks.offset = some deadline ∧ Settled r s'.clocks.offset deadline s' := by
  obtain ⟨r₀, deadline, hfound, rfl, hclocks, hstore, -, hdeadline, hengine⟩ := revokeById_ok hm h
  have hid : (r₀.revokedBy s.clocks.instant).id = id := (TokenRecord.id_revokedBy _ _).trans (hkeyed id r₀ hfound)
  refine ⟨hid, TokenRecord.isRevoked_revokedBy _ _, deadline, ?_, rfl, ⟨_, hengine, ?_⟩, ?_, ?_⟩
  · rw [← markerDeadline?_of_withinMargin hmargin, hclocks, TokenRecord.expiresAt_revokedBy, hdeadline]
  · rw [Memory.get?_withMarker, TokenRecord.id_revokedBy, if_pos rfl]
  · rw [hstore]
    split
    · exact hkeyed
    · exact hkeyed.save _
  · rw [hstore]
    split
    · rename_i hrev
      rw [TokenRecord.revokedBy, if_pos hrev]
      exact hkeyed.holds hfound
    · exact TokenStore.holds_save.mpr (.inl rfl)

/-- To revoke a token whose revocation is settled changes nothing. -/
theorem Settled.revokeById (h : Settled r offset deadline s) (hrev : r.isRevoked = true)
    (hpegged : pegged? r.expiresAt offset = some deadline) (hmargin : WithinMargin r.expiresAt s.clocks.instant)
    (hrun : s.run (revokeById r.id).run = (.returned (.ok q), s')) :
    q = r ∧ s'.clocks = s.clocks ∧ s'.store = s.store ∧ s'.engine = s.engine := by
  obtain ⟨m, hm, hmarker⟩ := h.engine
  obtain ⟨hq, hclocks, hstore, -, deadline', hdeadline, hengine⟩ := revokeById_of_revoked hm h.holds hrev hrun
  rw [markerDeadline?_of_withinMargin hmargin, h.offset_eq, hpegged] at hdeadline
  obtain rfl := Option.some.inj hdeadline
  rw [Memory.withMarker_eq_self hmarker] at hengine
  exact ⟨hq, hclocks, hstore, hengine.trans hm.symm⟩

/-- To repeat a revocation changes nothing. A token is revoked by its id, and after whatever happens then it is revoked
by its id once more. If nobody brings another copy of the record meanwhile, the cache is not closed, the clocks move
together, and the margin after the token's expiry is not over, then the second revocation returns the record of the
first one, and leaves the records, and the whole engine with the deadlines of all entries, as they were. -/
theorem repeated_revocation_changes_nothing (hm : s.engine = .memory m) (hkeyed : s.store.Keyed)
    (hfirst : s.run (revokeById id).run = (.returned (.ok r), s')) (hevents : ∀ e ∈ events, e.LeavesRevocation id)
    (hmargin : WithinMargin r.expiresAt (s'.after events).clocks.instant)
    (hagain : (s'.after events).run (revokeById id).run = (.returned (.ok q), s'')) :
    q = r ∧ s''.clocks = (s'.after events).clocks ∧ s''.store = (s'.after events).store ∧
      s''.engine = (s'.after events).engine := by
  have hearlier : WithinMargin r.expiresAt s'.clocks.instant := hmargin.of_later (Service.wall_le_after hevents)
  obtain ⟨rfl, hrev, deadline, hpegged, hsettled⟩ := settled_of_revokeById hm hkeyed hfirst hearlier
  exact (hsettled.after hrev hpegged hevents hmargin).revokeById hrev hpegged hmargin hagain

/-- Markers are restored, the token expires, it is looked for, a code is issued, expired entries are removed, and half
an hour of the margin goes by. -/
def sampleMeanwhile : List ServiceEvent :=
  [.call .loadRevocations, .advance (Span.ofSeconds 3601), .call (.isRevoked "admin_access_tokens:1"),
    .call (.issueCode {} "sms" "+1"), .prune, .advance (Span.ofSeconds 1800)]

/-- The token is revoked at the start of 1970, and once more in the margin after its expiry. The second time changes
nothing, and the marker still has the deadline of an hour after the expiry. -/
theorem repeated_revocation_changes_nothing_in_margin :
    let s' := (sampleService.run (revokeById "admin_access_tokens:1").run).2
    let s₁ := s'.after sampleMeanwhile
    let s₂ := (s₁.run (revokeById "admin_access_tokens:1").run).2
    (s₁.run (revokeById "admin_access_tokens:1").run).1 =
        .returned (.ok { sampleRecord with revokedAt := some ⟨0, 0⟩ }) ∧
      sampleRecord.isExpired s₁.clocks.instant = true ∧ s₂.store = s₁.store ∧ s₂.engine = s₁.engine ∧
      (s₁.engine.perform s₁.clocks (.remaining (Keys.revokedToken "admin_access_tokens:1"))).1 =
        .returned (.ok (some ⟨1799500000000⟩)) := by
  intro s' s₁ s₂
  have hfirst : sampleService.run (revokeById "admin_access_tokens:1").run =
      (.returned (.ok { sampleRecord with revokedAt := some ⟨0, 0⟩ }), s') := Prod.ext rfl rfl
  have hevents : ∀ e ∈ sampleMeanwhile, e.LeavesRevocation "admin_access_tokens:1" := by
    simp [sampleMeanwhile, ServiceEvent.LeavesRevocation, ServiceCall.SparesRecord, ServiceCall.copy?]
  have hmargin : WithinMargin (some ⟨3600, 500000000⟩) s₁.clocks.instant := by
    intro t ht last hlast
    cases ht
    cases hlast
    decide +kernel
  have hagain : s₁.run (revokeById "admin_access_tokens:1").run =
      (.returned (.ok { sampleRecord with revokedAt := some ⟨0, 0⟩ }), s₂) :=
    Prod.ext (by decide +kernel) (by dsimp only)
  obtain ⟨-, -, hstore, hengine⟩ := repeated_revocation_changes_nothing (s := sampleService) rfl
    (TokenStore.keyed_ofList _) hfirst hevents hmargin hagain
  exact ⟨congrArg Prod.fst hagain, by decide +kernel, hstore, hengine, by decide +kernel⟩

end Revocation

end Gatehouse
