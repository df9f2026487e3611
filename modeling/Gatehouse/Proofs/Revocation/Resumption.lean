import Gatehouse.Proofs.Revocation.Records
import Gatehouse.Proofs.Revocation.Totality
import Gatehouse.Proofs.Service.Accounting

/-!
# Revocations that fail

A revocation saves the record before it writes the marker, and takes nothing back. So one that does not succeed leaves
the cache as it was and counts nothing, and either the records are as they were or the one that was found is saved as
revoked (`failed_revocation_leaves`). From there a revocation by the id and a start over the records both write the
marker that is missing, and neither changes since when the token is revoked (`failed_revocation_resumable`).
-/

namespace Gatehouse

variable {α : Type} {s s' : Service} {m : Memory} {id : String} {r : TokenRecord}

/-- A value that cannot be put changes nothing. -/
theorem Memory.perform_put_of_not_ok {now : Nat} {key : String} {value : Bytes} {lifetime : Option Span}
    (h : (m.perform now (.put key value lifetime)).1 ≠ .returned (.ok ())) :
    (m.perform now (.put key value lifetime)).2 = m := by
  unfold perform at h ⊢
  split
  · rfl
  · rename_i hopen
    rw [if_neg hopen] at h
    by_cases hfits : ∀ d, lifetime = some d → (deadline? now d).isSome = true
    · rw [respond_put hfits] at h
      exact absurd rfl h
    · rw [respond_put_of_overflow hfits]

theorem Service.engine_of_put_not_ok {key : String} {value : Bytes} {lifetime : Option Span} (hm : s.engine = .memory m)
    (h : (s.callEngine (.put key value lifetime)).1 ≠ .returned (.ok ())) :
    (s.callEngine (.put key value lifetime)).2.engine = s.engine := by
  unfold callEngine at h ⊢
  split
  · rfl
  · rename_i hmade
    simp only [hmade, hm] at h ⊢
    exact congrArg Engine.memory (Memory.perform_put_of_not_ok h)

/-- The counts of revocations go up by those that an action is to be noted as. -/
theorem Service.revocations_run {n : α → List Event} {x : Action α} (hx : x.Accounts n) (s : Service)
    (kind : TokenKind) :
    (s.run x).2.metrics.revocations kind =
      s.metrics.revocations kind + ((s.run x).1.notes n).count (.revocation kind) := by
  rw [metrics_run, Metrics.revocations_foldl, ← hx.notes s, List.count_filter rfl]

/-- Asked, the service tells that the token with an id is revoked, unless the call is made to fail. -/
def Service.TellsRevoked (s : Service) (id : String) : Prop :=
  s.engineFaults.next .has = none → (s.run (Revocation.isRevoked id).run).1 = .returned (.ok true)

theorem Service.tellsRevoked_of_has (hm : s.engine = .memory m)
    (h : (m.perform s.clocks.monotonic (.has (Keys.revokedToken id))).1 = .returned (.ok true)) :
    s.TellsRevoked id := by
  intro hmade
  have hcall : (s.callEngine (.has (Keys.revokedToken id))).1 = .returned (.ok true) := by
    unfold callEngine
    rw [show s.engineFaults.next (EngineCall.has _).method = none from hmade, hm]
    exact h
  unfold Revocation.isRevoked Cache.has
  rw [run_liftCache, run_counted]
  generalize s.callEngine (.has (Keys.revokedToken id)) = a at hcall ⊢
  obtain ⟨o, s₁⟩ := a
  cases hcall
  rfl

namespace Revocation

variable {o : Outcome (Except ServiceError TokenRecord)}

/-! ## What a revocation leaves that does not succeed -/

/-- A marker that cannot be written leaves the engine as it was. -/
theorem engine_of_mark_not_ok {now : Instant} {o : Outcome (Except ServiceError Unit)} (hm : s.engine = .memory m)
    (hrun : s.run (mark r now).run = (o, s')) (ho : o ≠ .returned (.ok ())) : s'.engine = s.engine := by
  unfold mark at hrun
  rw [Service.run_bind] at hrun
  cases hlife : markerLifetime r.expiresAt now with
  | abandoned =>
    rw [hlife] at hrun
    cases hrun
    rfl
  | returned lifetime =>
    rw [hlife] at hrun
    change s.run (CacheAction.lift (Cache.counted .put (markerCall r.id lifetime))).run = _ at hrun
    have hcall : (s.callEngine (markerCall r.id lifetime)).1 ≠ .returned (.ok ()) →
        (s.callEngine (markerCall r.id lifetime)).2.engine = s.engine := Service.engine_of_put_not_ok hm
    rw [Service.run_liftCache, Service.run_counted] at hrun
    generalize s.callEngine (markerCall r.id lifetime) = a at hcall hrun
    obtain ⟨o₁, s₁⟩ := a
    rcases o₁ with ⟨e | _⟩ | _
    · cases hrun
      exact hcall nofun
    · cases hrun
      exact absurd rfl ho
    · cases hrun
      exact hcall nofun

/-- Where the marker of a record is not written, nothing is. -/
theorem conclude_leaves {now : Instant} (hm : s.engine = .memory m) (hrun : s.run (conclude r now).run = (o, s'))
    (ho : ∀ q, o ≠ .returned (.ok q)) : s'.store = s.store ∧ s'.engine = s.engine := by
  have hstore := conclude_keeps_store s r now
  rw [hrun] at hstore
  refine ⟨hstore, ?_⟩
  unfold conclude at hrun
  cases hmark : s.run (mark r now).run with
  | mk o₁ s₁ =>
    by_cases hok : o₁ = .returned (.ok ())
    · subst hok
      rw [Service.run_bind_of_ok hmark] at hrun
      exact absurd (congrArg Prod.fst hrun).symm (ho r)
    · obtain rfl := Service.run_bind_of_not_ok hmark (fun _ => hok) hrun
      exact engine_of_mark_not_ok hm hmark hok

/-- A revocation that does not succeed leaves the engine as it was, and has saved at most that the record is revoked. -/
theorem revoke_leaves (hm : s.engine = .memory m) (hrun : s.run (revoke r).run = (o, s'))
    (ho : ∀ q, o ≠ .returned (.ok q)) :
    s'.engine = s.engine ∧
      (s'.store = s.store ∨
        r.isRevoked = false ∧ s'.store = s.store.save { r with revokedAt := some s.clocks.instant }) := by
  have hclock : s.run (liftM Action.clock : ServiceAction Instant).run = (.returned (.ok s.clocks.instant), s) := rfl
  rw [revoke_eq, Service.run_bind_of_ok hclock] at hrun
  cases hrev : r.isRevoked with
  | true =>
    rw [hrev] at hrun
    obtain ⟨hstore, hengine⟩ := conclude_leaves hm hrun ho
    exact ⟨hengine, .inl hstore⟩
  | false =>
    rw [hrev, if_neg Bool.false_ne_true] at hrun
    unfold save at hrun
    cases hsave : s.run (store (.save { r with revokedAt := some s.clocks.instant })).run with
    | mk o₁ s₁ =>
      by_cases hok : o₁ = .returned (.ok ())
      · subst hok
        obtain ⟨-, hsaved, -, hsame⟩ := store_ok hsave
        rw [Service.run_bind_of_ok hsave] at hrun
        obtain ⟨hstore, hengine⟩ := conclude_leaves (hsame.trans hm) hrun ho
        exact ⟨hengine.trans hsame, .inr ⟨rfl, hstore.trans hsaved⟩⟩
      · obtain rfl := Service.run_bind_of_not_ok hsave (fun _ => hok) hrun
        obtain ⟨hstore, hengine⟩ := store_not_ok hsave fun _ => hok
        exact ⟨hengine, .inl hstore⟩

/-- A revocation by an id that does not succeed leaves the engine as it was and counts no revocation; it has changed
nothing in the store, or saved that the record it found is revoked. -/
theorem failed_revocation_leaves (hm : s.engine = .memory m) (hrun : s.run (revokeById id).run = (o, s'))
    (ho : ∀ q, o ≠ .returned (.ok q)) :
    s'.engine = s.engine ∧ s'.metrics.revocations = s.metrics.revocations ∧
      (s'.store = s.store ∨
        ∃ r, s.store.find? id = some r ∧ r.isRevoked = false ∧
          s'.store = s.store.save { r with revokedAt := some s.clocks.instant }) := by
  have hcounts : s'.metrics.revocations = s.metrics.revocations := by
    funext kind
    have hcounted := Service.revocations_run (revokeById_accounts id) s kind
    rw [hrun] at hcounted
    rcases o with ⟨e | q⟩ | _
    · exact hcounted
    · exact absurd rfl (ho q)
    · exact hcounted
  suffices hleaves : s'.engine = s.engine ∧ (s'.store = s.store ∨ ∃ r, s.store.find? id = some r ∧
      r.isRevoked = false ∧ s'.store = s.store.save { r with revokedAt := some s.clocks.instant }) from
    ⟨hleaves.1, hcounts, hleaves.2⟩
  unfold revokeById at hrun
  cases hfind : s.run (store (.find id)).run with
  | mk o₁ s₁ =>
    by_cases hok : ∃ found, o₁ = .returned (.ok found)
    · obtain ⟨found, rfl⟩ := hok
      obtain ⟨hfound, hstore, hclocks, hengine⟩ := store_ok hfind
      have hsame : s₁.store = s.store := hstore
      rw [Service.run_bind_of_ok hfind] at hrun
      cases found with
      | none =>
        cases hrun
        exact ⟨hengine, .inl hsame⟩
      | some r =>
        obtain ⟨hengine', hsaved⟩ := revoke_leaves (hengine.trans hm) hrun ho
        rw [hsame, hclocks] at hsaved
        exact ⟨hengine'.trans hengine, hsaved.imp_right fun ⟨hrev, hsaved⟩ => ⟨r, hfound.symm, hrev, hsaved⟩⟩
    · have hnot : ∀ found, o₁ ≠ .returned (.ok found) := fun found heq => hok ⟨found, heq⟩
      obtain rfl := Service.run_bind_of_not_ok hfind hnot hrun
      obtain ⟨hstore, hengine⟩ := store_not_ok hfind hnot
      exact ⟨hengine, .inl hstore⟩

/-! ## What takes it up again -/

/-- Over an engine in memory, the records are under their ids, and a record is among them. -/
structure Files (r : TokenRecord) (s : Service) : Prop where
  engine : s.InMemory
  keyed : s.store.Keyed
  holds : s.store.Holds r

/-- A record that is revoked stays among the records at every event that brings no copy of it. -/
theorem Files.apply {e : ServiceEvent} (h : Files r s) (hrev : r.isRevoked = true) (he : e.SparesRecord r.id) :
    Files r (s.apply e) := by
  obtain ⟨m, hm⟩ := h.engine
  have hengine := h.engine.apply e
  cases e with
  | call c =>
    have hopens (K : String → Prop) : (retaining (fun _ => True) r s.clocks.instant).Opens K :=
      ⟨fun _ => trivial, fun _ _ _ _ => trivial⟩
    have habides := ServiceCall.abides (c := c) (hopens _) (hopens _) (retaining_marks hrev fun _ _ _ _ => trivial)
      (fun _ => trivial) (fun _ => trivial) fun q hq hid => absurd hid (he q hq)
    obtain ⟨-, -, hkeyed, hr⟩ :=
      run_retains (J := fun _ => True) (fun _ _ _ _ => trivial) habides ⟨m, hm, trivial⟩ h.keyed h.holds
    exact ⟨hengine, hkeyed, hr⟩
  | _ => exact ⟨hengine, h.keyed, h.holds⟩

theorem Files.after {events : List ServiceEvent} (h : Files r s) (hrev : r.isRevoked = true)
    (he : ∀ e ∈ events, e.SparesRecord r.id) : Files r (s.after events) := by
  induction events generalizing s with
  | nil => exact h
  | cons e rest ih =>
    exact ih (h.apply hrev (he e List.mem_cons_self)) fun e' he' => he e' (List.mem_cons_of_mem _ he')

/-- A marker is found as soon as it is written. -/
theorem has_withMarker {clocks : Clocks} {deadline : Option Nat} (hopen : m.closed = false)
    (hdeadline : markerDeadline? r.expiresAt clocks = some deadline) :
    ((m.withMarker r.id deadline).perform clocks.monotonic (.has (Keys.revokedToken r.id))).1 =
      .returned (.ok true) := by
  have hopen' : (m.withMarker r.id deadline).closed = false := hopen
  have hlive : (m.withMarker r.id deadline).live? clocks.monotonic (Keys.revokedToken r.id) =
      some ⟨Json.encode true, deadline⟩ := by
    unfold Memory.live?
    rw [Memory.get?_withMarker, if_pos rfl]
    exact Option.filter_some_pos (isLive_of_markerDeadline? hdeadline)
  rw [Memory.perform_eq_respond hopen', Memory.respond, hlive]
  rfl

/-- The store has a record under an id, as revoked; and if the token is revoked by the id, or the service is started
over the records and an open cache before the token expires, the record stays as it is and the token is revoked for the
cache too. -/
structure Resumable (id : String) (r : TokenRecord) (s : Service) : Prop where
  kept : s.store.find? id = some r
  byRevocation : ∀ q s', s.run (revokeById id).run = (.returned (.ok q), s') →
    q = r ∧ s'.store.find? id = some r ∧ s'.TellsRevoked id
  byStart : ∀ (s₁ s' : Service) (m : Memory), s₁.store = s.store → s₁.engine = .memory m → m.closed = false →
    s₁.start = (.returned (.ok ()), s') → r.isExpired s'.clocks.instant = false →
      s'.store.find? id = some r ∧ s'.TellsRevoked id

theorem Files.resumable (h : Files r s) (hrev : r.isRevoked = true) : Resumable r.id r s := by
  refine ⟨h.holds, fun q s' hrun => ?_, fun s₁ s' m hstore hm hopen hstart hexp => ?_⟩
  · obtain ⟨m, hm⟩ := h.engine
    obtain ⟨hq, hclocks, hstore, hopen, deadline, hdeadline, hengine⟩ := revokeById_of_revoked hm h.holds hrev hrun
    refine ⟨hq, hstore ▸ h.holds, Service.tellsRevoked_of_has hengine ?_⟩
    rw [hclocks]
    exact has_withMarker hopen hdeadline
  · obtain ⟨total, hload⟩ := Service.start_ok hstart
    obtain ⟨-, hclocks, hkept, m', hm', hmarked⟩ := load_ok hm hload
    obtain ⟨m'', hm'', hcovered⟩ := covered_of_load hm (hstore ▸ h.keyed) hload
    obtain rfl := Engine.memory.inj (hm'.symm.trans hm'')
    refine ⟨?_, Service.tellsRevoked_of_has hm' ?_⟩
    · rw [hkept, hstore]
      exact h.holds
    · rw [hclocks] at hexp ⊢
      exact ((hcovered r (hstore ▸ h.holds) hrev).hasMarker (hmarked.closed_eq.trans hopen) hexp).found

/-- A revocation that fails can be taken up again. If a revocation by an id does not succeed, whichever calls fail, the
cache is as it was and no revocation is counted, and the records are as they were; or the record that was found is saved
as revoked, and nothing else is. In that case, whatever happens after that, as long as nobody brings another copy of the
record, every revocation by the id that succeeds, and every start over the records and an open cache that succeeds
before the token expires, makes the cache tell that the token is revoked, and the time of the revocation stays that of
the one that failed. -/
theorem failed_revocation_resumable (hm : s.engine = .memory m) (hkeyed : s.store.Keyed)
    (hrun : s.run (revokeById id).run = (o, s')) (ho : ∀ q, o ≠ .returned (.ok q)) :
    s'.engine = s.engine ∧ s'.metrics.revocations = s.metrics.revocations ∧
      (s'.store = s.store ∨
        ∃ r, s.store.find? id = some r ∧ r.isRevoked = false ∧
          s'.store = s.store.save { r with revokedAt := some s.clocks.instant } ∧
          ∀ events : List ServiceEvent, (∀ e ∈ events, e.SparesRecord id) →
            Resumable id { r with revokedAt := some s.clocks.instant } (s'.after events)) := by
  obtain ⟨hengine, hcounts, hstore⟩ := failed_revocation_leaves hm hrun ho
  refine ⟨hengine, hcounts, hstore.imp_right ?_⟩
  rintro ⟨r, hfound, hrev, hsaved⟩
  refine ⟨r, hfound, hrev, hsaved, fun events hevents => ?_⟩
  obtain rfl : r.id = id := hkeyed id r hfound
  have hfiles : Files { r with revokedAt := some s.clocks.instant } s' := by
    refine ⟨⟨m, hengine.trans hm⟩, ?_, ?_⟩
    · rw [hsaved]
      exact hkeyed.save _
    · rw [hsaved]
      exact TokenStore.holds_save.mpr (.inl rfl)
  exact (hfiles.after rfl hevents).resumable rfl

/-- A service with a record that is not revoked. The next value that is put into its cache takes too long. -/
def sampleInterrupted : Service :=
  { sampleService with engineFaults := FaultPlan.empty.add .put (some (.timeout (Span.ofSeconds 1))) }

/-- The record is saved as revoked and its marker is not written. Five seconds later the token is revoked again, and the
cache tells so; and so does a new cache over the records that is started half a second before the token expires. -/
theorem failed_revocation_resumable_after_timeout :
    let s' := (sampleInterrupted.run (revokeById "admin_access_tokens:1").run).2
    let s₁ := s'.after [.advance (Span.ofSeconds 5)]
    let s₂ := (s₁.run (revokeById "admin_access_tokens:1").run).2
    let restarted := fresh ⟨⟨3600000000000, 7⟩, s₁.store⟩ none fun _ => 0
    let s₃ := restarted.start.2
    (sampleInterrupted.run (revokeById "admin_access_tokens:1").run).1 =
        .returned (.error (.cache (.timeout (Span.ofSeconds 1)))) ∧
      (s'.run (isRevoked "admin_access_tokens:1").run).1 = .returned (.ok false) ∧
      s₂.store.revokedAt? "admin_access_tokens:1" = some ⟨0, 0⟩ ∧
      (s₂.run (isRevoked "admin_access_tokens:1").run).1 = .returned (.ok true) ∧
      s₃.store.revokedAt? "admin_access_tokens:1" = some ⟨0, 0⟩ ∧
      (s₃.run (isRevoked "admin_access_tokens:1").run).1 = .returned (.ok true) := by
  intro s' s₁ s₂ restarted s₃
  have hfails : (sampleInterrupted.run (revokeById "admin_access_tokens:1").run).1 =
      .returned (.error (.cache (.timeout (Span.ofSeconds 1)))) := by rfl
  have hrun : sampleInterrupted.run (revokeById "admin_access_tokens:1").run =
      (.returned (.error (.cache (.timeout (Span.ofSeconds 1)))), s') := Prod.ext hfails rfl
  have hsaved : s'.store.find? "admin_access_tokens:1" ≠ sampleInterrupted.store.find? "admin_access_tokens:1" := by
    decide +kernel
  have hagain : s₁.run (revokeById "admin_access_tokens:1").run =
      (.returned (.ok { sampleRecord with revokedAt := some ⟨0, 0⟩ }), s₂) :=
    Prod.ext (by decide +kernel) (by dsimp only)
  have hstarted : restarted.start = (.returned (.ok ()), s₃) := Prod.ext (by decide +kernel) (by dsimp only)
  obtain ⟨-, -, hstore⟩ := failed_revocation_resumable (s := sampleInterrupted) rfl (TokenStore.keyed_ofList _) hrun
    (fun _ => nofun)
  rcases hstore with hsame | ⟨r, hfound, -, -, hlater⟩
  · exact absurd (congrArg (·.find? "admin_access_tokens:1") hsame) hsaved
  · obtain rfl : sampleRecord = r := Option.some.inj hfound
    obtain ⟨-, hrevocation, hstart⟩ := hlater [.advance (Span.ofSeconds 5)] (by simp [ServiceEvent.SparesRecord])
    obtain ⟨-, hkept₂, htells₂⟩ := hrevocation _ s₂ hagain
    obtain ⟨hkept₃, htells₃⟩ := hstart restarted s₃ _ rfl rfl rfl hstarted (by decide +kernel)
    refine ⟨hfails, by decide +kernel, ?_, htells₂ (by decide +kernel), ?_, htells₃ (by decide +kernel)⟩
    · rw [TokenStore.revokedAt?, hkept₂]
      rfl
    · rw [TokenStore.revokedAt?, hkept₃]
      rfl

end Revocation

end Gatehouse
