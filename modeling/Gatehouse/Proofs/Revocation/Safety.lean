import Gatehouse.Proofs.Revocation.Marker

/-!
# A revoked token stays rejected

Once a token is revoked, no verification accepts it again: whatever else the service does, and whichever calls fail,
the marker is there until the token has expired. The two clocks may drift apart meanwhile, as long as the wall clock
does not fall back against the forward clock by more than the margin.
-/

namespace Gatehouse

variable {s s' : Service} {m : Memory}

/-! ## What a verification and a revocation find and leave -/

namespace Authenticator

variable {t : AccessToken} {allowed : List AccountType} {a : AccountType}

theorem accept_ok (h : s.run (accept t allowed).run = (.returned (.ok a), s')) :
    (s.callEngine (.has (Keys.revokedToken t.id))).1 = .returned (.ok false) := by
  obtain ⟨revoked, s₁, h₁, h₂⟩ := Service.run_bind_ok h
  cases revoked
  · exact (Service.run_counted_ok (Service.run_liftCache_ok h₁)).1
  · cases h₂

/-- A token that is accepted has not expired and was found to have no marker. -/
theorem verify_ok (h : s.run (verify t allowed).run = (.returned (.ok a), s')) :
    hasExpired t s.clocks.instant = false ∧
      (s.callEngine (.has (Keys.revokedToken t.id))).1 = .returned (.ok false) := by
  cases hexp : t.expiresAt.isSome
  · rw [verify_of_unexpiring hexp] at h
    refine ⟨?_, accept_ok h⟩
    rw [Option.isSome_eq_false_iff, Option.isNone_iff_eq_none] at hexp
    rw [hasExpired, hexp]
    rfl
  · rw [verify_of_expiring hexp] at h
    obtain ⟨now, s₁, h₁, h₂⟩ := Service.run_bind_ok h
    cases Service.run_lift_ok h₁
    split at h₂
    · cases h₂
    · rename_i hlive
      exact ⟨Bool.not_eq_true _ ▸ hlive, accept_ok h₂⟩

theorem verify_abides {D : Discipline} (h : D.calls (.has (Keys.revokedToken t.id))) :
    Abides D (verify t allowed) fun _ => True :=
  abides_iff.mpr (verify_observes (P := D.protocol) (fun _ => trivial) trivial h)

end Authenticator

/-! ## What the service does for a call -/

/-- A discipline that minds nothing but the calls about one marker admits every call on the keys of another part. -/
theorem Discipline.opens_of_marker {D : Discipline} (id : String) {p : Keys.Part} (hp : p ≠ .marker)
    (hscan : ∀ stem, D.calls (.keys stem))
    (hpoint : ∀ (c : EngineCall) (key : String), c.key? = some key → key ≠ Keys.revokedToken id → D.calls c) :
    D.Opens p.Holds := by
  refine ⟨hscan, fun c key hc hkey => hpoint c key hc ?_⟩
  rintro rfl
  exact hp (Keys.Part.eq_of_holds hkey (Keys.revokedToken_holds id))

namespace ServiceCall

variable {D : Discipline}

/-- The copy of a record that a call brings. -/
def copy? : ServiceCall → Option TokenRecord
  | revoke r | saveRecord r => some r
  | _ => none

/-- Every call of the service keeps to a discipline that leaves attempts and codes alone, and under which records are
revoked and markers looked for, if it brings no record but one that may be saved. -/
theorem abides (hattempt : D.Opens Keys.Part.attempt.Holds) (hcode : D.Opens Keys.Part.code.Holds) (hmarks : D.Marks)
    (hhas : ∀ id, D.calls (.has (Keys.revokedToken id))) {c : ServiceCall} (hclose : c = closeCache → D.calls .close)
    (hcopy : ∀ r ∈ c.copy?, D.records r) : Abides D c.action fun _ => True := by
  cases c with
  | recordAttempt space ids window => exact Limiter.record_abides hattempt (Limiter.reaches_attempts space ids window)
  | recordAttemptAt space ids window second =>
    exact Limiter.recordAt_abides hattempt (Limiter.reaches_attempts space ids window) second
  | countAttempts space ids window => exact Abides.lift (Limiter.count_within hattempt)
  | guardAttempts space ids window limit => exact Limiter.guard_abides hattempt limit
  | clearAttempts space ids window => exact Limiter.clear_abides hattempt (Limiter.reaches_attempts space ids window)
  | issueCode settings medium credential => exact OneTimeCode.issue_abides settings medium credential hattempt hcode
  | verifyCode settings medium credential code =>
    exact OneTimeCode.verify_abides settings medium credential hattempt code
      (hcode.point _ _ rfl (Keys.code_holds medium credential code))
  | revoke r => exact Revocation.revoke_abides hmarks (hcopy r rfl)
  | revokeById id => exact Revocation.revokeById_abides hmarks id
  | isRevoked id => exact Revocation.isRevoked_abides (hhas id)
  | loadRevocations => exact Revocation.load_abides hmarks
  | verifyToken token allowed => exact Authenticator.verify_abides (hhas token.id)
  | saveRecord r =>
    exact (Revocation.store_abides (c := .save r) (hcopy r rfl)).mono fun _ _ => trivial
  | closeCache => exact Abides.liftCache ((Cache.uncounted_abides (hclose rfl)).mono fun _ _ => trivial)

end ServiceCall

namespace Revocation

/-- The call of the engine that writes the marker of a token. -/
def markerCall (id : String) (lifetime : Option Span) : EngineCall :=
  .put (Keys.revokedToken id) (Json.encode true) (Cache.lifetime lifetime)

/-- A marker that has been written was put into the engine, for the lifetime of its record. -/
theorem mark_ok {r : TokenRecord} {now : Instant} (hm : s.engine = .memory m)
    (h : s.run (mark r now).run = (.returned (.ok ()), s')) :
    ∃ lifetime, markerLifetime r.expiresAt now = .returned lifetime ∧
      (m.perform s.clocks.monotonic (markerCall r.id lifetime)).1 = .returned (.ok ()) ∧
      s'.engine = .memory (m.perform s.clocks.monotonic (markerCall r.id lifetime)).2 ∧
      s'.clocks = s.clocks ∧ s'.store = s.store := by
  obtain ⟨lifetime, s₁, h₁, h₂⟩ := Service.run_bind_ok h
  obtain ⟨hlife, rfl⟩ := Service.run_ofOutcome_ok (Service.run_lift_ok h₁)
  obtain ⟨hput, rfl⟩ := Service.run_counted_ok (Service.run_liftCache_ok h₂)
  obtain ⟨hperform, hengine⟩ := Service.callEngine_memory_ok hm hput
  exact ⟨lifetime, hlife, hperform, hengine, Service.callEngine_clocks _ _, Service.callEngine_store _ _⟩

/-- A revocation saves the record unless it is revoked already, and ends by writing its marker. -/
theorem revoke_ok {r r' : TokenRecord} (h : s.run (revoke r).run = (.returned (.ok r'), s')) :
    ∃ s₁ s₂ : Service, s₁.clocks = s.clocks ∧ s₁.engine = s.engine ∧ r'.id = r.id ∧ r'.expiresAt = r.expiresAt ∧
      s₁.run (mark r' s.clocks.instant).run = (.returned (.ok ()), s₂) ∧ s'.engine = s₂.engine ∧
        s'.clocks = s₂.clocks := by
  obtain ⟨now, s₀, h₀, h⟩ := Service.run_bind_ok h
  cases Service.run_lift_ok h₀
  have hrest {s₁ : Service} {r'' : TokenRecord} (h : s₁.run (do
      mark r'' s.clocks.instant
      Action.record (.revocation r.kind)
      return r'' : ServiceAction TokenRecord).run = (.returned (.ok r'), s')) :
      ∃ s₂, r' = r'' ∧ s₁.run (mark r'' s.clocks.instant).run = (.returned (.ok ()), s₂) ∧
        s'.engine = s₂.engine ∧ s'.clocks = s₂.clocks := by
    obtain ⟨_, s₂, hmark, h⟩ := Service.run_bind_ok h
    obtain ⟨_, s₃, hrecord, h⟩ := Service.run_bind_ok h
    cases Service.run_lift_ok hrecord
    cases h
    exact ⟨s₂, rfl, hmark, rfl, rfl⟩
  cases hrev : r.isRevoked
  · rw [hrev] at h
    obtain ⟨_, s₁, hsave, h⟩ := Service.run_bind_ok h
    obtain ⟨s₂, rfl, hmark, hengine, hclocks⟩ := hrest h
    have hs₁ : s₁ = (s.callStore (.save { r with revokedAt := some s.clocks.instant })).2 := by
      change s.run (Action.request (.store (.save { r with revokedAt := some s.clocks.instant }))) = _ at hsave
      rw [Service.run_request] at hsave
      exact (congrArg Prod.snd hsave).symm
    refine ⟨s₁, s₂, ?_, ?_, rfl, rfl, hmark, hengine, hclocks⟩
    · rw [hs₁, Service.callStore_clocks]
    · rw [hs₁, Service.callStore_engine]
  · rw [hrev] at h
    obtain ⟨s₂, rfl, hmark, hengine, hclocks⟩ := hrest h
    exact ⟨s, s₂, rfl, rfl, rfl, rfl, hmark, hengine, hclocks⟩

/-! ## What happens after a revocation -/

/-- What the service keeps to so that a token stays guarded: it spares the marker, and every record of the token has
the same expiry. -/
def keeping (id : String) (expiresAt : Option Instant) (floor : Option Int) (clocks : Clocks) : Discipline where
  calls := spares id floor clocks.monotonic
  records r := r.id = id → r.expiresAt = expiresAt
  now := clocks.instant

variable {id : String} {expiresAt : Option Instant} {floor : Option Int} {clocks : Clocks} {offset : Int}

/-- Calls on the keys of another part spare every marker. -/
theorem keeping_opens {p : Keys.Part} (hp : p ≠ .marker) : (keeping id expiresAt floor clocks).Opens p.Holds := by
  refine Discipline.opens_of_marker id hp (fun _ => trivial) ?_
  intro c key hc hne
  cases c <;> cases hc
  case has => trivial
  case fetch => trivial
  case put => exact fun heq => absurd heq hne
  case delete => exact hne
  case take => exact hne
  case remaining => trivial

/-- Every marker that is written for the token reaches the floor, and the markers of other tokens are other keys. -/
theorem keeping_marks (hoff : clocks.offset ≤ offset + margin.nanos) :
    (keeping id expiresAt (Revocation.floor expiresAt offset) clocks).Marks := by
  refine ⟨fun r lifetime hr hlife hkey => ?_, fun r t _ hr => hr⟩
  rw [hr (Keys.revokedToken_inj.mp hkey)] at hlife
  exact reaches_of_markerLifetime hlife hoff

end Revocation

/-- A call brings no record of the token with another expiry. -/
def ServiceCall.KeepsExpiry (id : String) (expiresAt : Option Instant) : ServiceCall → Prop
  | revoke r | saveRecord r => r.id = id → r.expiresAt = expiresAt
  | _ => True

/-- An event brings no record of the token with another expiry. -/
def ServiceEvent.KeepsExpiry (id : String) (expiresAt : Option Instant) : ServiceEvent → Prop
  | call c => c.KeepsExpiry id expiresAt
  | _ => True

namespace Revocation

variable {id : String} {expiresAt : Option Instant} {floor : Option Int} {clocks : Clocks} {offset : Int}

/-- Every call of the service spares the marker. -/
theorem action_abides {c : ServiceCall} (hc : c.KeepsExpiry id expiresAt)
    (hoff : clocks.offset ≤ offset + margin.nanos) :
    Abides (keeping id expiresAt (Revocation.floor expiresAt offset) clocks) c.action fun _ => True := by
  refine ServiceCall.abides (keeping_opens (by decide)) (keeping_opens (by decide)) (keeping_marks hoff)
    (fun _ => trivial) (fun _ => trivial) fun r hr => ?_
  cases c <;> cases hr <;> exact hc

/-- The engine of a service guards a token up to a floor, and every record of the token has the same expiry. -/
def Upholds (id : String) (expiresAt : Option Instant) (floor : Option Int) (s : Service) : Prop :=
  s.Satisfies s.clocks (Guards id floor s.clocks.monotonic) fun r => r.id = id → r.expiresAt = expiresAt

/-- A token stays guarded at every event. -/
theorem Upholds.apply {e : ServiceEvent} (h : Upholds id expiresAt (Revocation.floor expiresAt offset) s)
    (he : e.KeepsExpiry id expiresAt) (hoff : s.clocks.offset ≤ offset + margin.nanos) :
    Upholds id expiresAt (Revocation.floor expiresAt offset) (s.apply e) := by
  obtain ⟨m, hm, hguards⟩ := h.engine
  have htick (d : Span) : ∃ m', (s.advance d).engine = .memory m' ∧
      Guards id (Revocation.floor expiresAt offset) (s.clocks.monotonic + d.nanos) m' :=
    ⟨_, Service.engine_advance hm d, (hguards.mono (Nat.le_add_right _ _)).tick⟩
  cases e with
  | call c =>
    have hkeep := (Service.run_keeps (D := keeping id expiresAt (Revocation.floor expiresAt offset) s.clocks)
      (fun m c hJ hc => Guards.perform hJ hc) rfl (action_abides he hoff) h).1
    unfold Upholds Service.apply
    rw [hkeep.clocks_eq]
    exact hkeep
  | prune => exact ⟨rfl, ⟨_, Service.engine_prune hm, hguards.prune⟩, h.records⟩
  | failEngine method fate => exact ⟨rfl, h.engine, h.records⟩
  | failStore method fate => exact ⟨rfl, h.engine, h.records⟩
  | advance d => exact ⟨rfl, htick d, h.records⟩
  | shiftWall nanos => exact ⟨rfl, h.engine, h.records⟩
  | advanceMonotonic d => exact ⟨rfl, htick d, h.records⟩

/-- A token stays guarded through every run in which the offset of the clocks never exceeds its last value by more than
the margin. -/
theorem Upholds.after {events : List ServiceEvent}
    (h : Upholds id expiresAt (Revocation.floor expiresAt offset) s)
    (he : ∀ e ∈ events, e.KeepsExpiry id expiresAt)
    (hoff : ∀ a ∈ s.moments events, a.clocks.offset ≤ offset + margin.nanos) :
    Upholds id expiresAt (Revocation.floor expiresAt offset) (s.after events) := by
  induction events generalizing s with
  | nil => exact h
  | cons e rest ih =>
    refine ih (h.apply (he e List.mem_cons_self) (hoff s List.mem_cons_self)) (fun e' he' => ?_) fun a ha => ?_
    · exact he e' (List.mem_cons_of_mem _ he')
    · exact hoff a (List.mem_cons_of_mem _ ha)

/-- A revocation leaves the token guarded up to every floor that its clocks allow for. -/
theorem upholds_of_revoke {r r' : TokenRecord} (hm : s.engine = .memory m)
    (h : s.run (revoke r).run = (.returned (.ok r'), s'))
    (hrecords : ∀ e ∈ s'.store.records.entries, e.2.id = r.id → e.2.expiresAt = r.expiresAt)
    (hoff : s'.clocks.offset ≤ offset + margin.nanos) :
    Upholds r.id r.expiresAt (Revocation.floor r.expiresAt offset) s' := by
  obtain ⟨s₁, s₂, hclocks₁, hengine₁, hid, hexp, hmark, hengine, hclocks⟩ := revoke_ok h
  obtain ⟨lifetime, hlife, hput, hm', hclocks₂, -⟩ := mark_ok (hengine₁.trans hm) hmark
  have hsame : s'.clocks = s.clocks := hclocks.trans (hclocks₂.trans hclocks₁)
  rw [hid, hclocks₁, ← hsame] at hput hm'
  rw [hexp, ← hsame] at hlife
  refine ⟨rfl, ⟨_, hengine.trans hm', .inr (.inr ⟨_, Memory.get?_of_put_ok hput, ?_⟩)⟩, hrecords⟩
  exact reaches_of_markerLifetime hlife hoff

/-- The claims of the token of a record: its id, and the second in which it expires. -/
def Describes (r : TokenRecord) (c : TokenClaims) : Prop :=
  c.jti = r.id ∧ c.exp = r.expiresAt.map fun t => Int64.ofInt t.seconds

/-- Expiries that exist survive the way through the claims, but for their fraction of a second. -/
theorem expiresAt_of_describes {r : TokenRecord} {c : TokenClaims} (h : Describes r c)
    (hrange : ∀ t ∈ r.expiresAt, Instant.inRange t.seconds = true) :
    c.expiresAt = r.expiresAt.map fun t => ⟨t.seconds, 0⟩ := by
  unfold TokenClaims.expiresAt
  rw [h.2]
  cases hexp : r.expiresAt with
  | none => rfl
  | some t =>
    have ht := hrange t hexp
    have hint : (Int64.ofInt t.seconds).toInt = t.seconds := by
      unfold Instant.inRange Instant.firstSecond Instant.lastSecond at ht
      rw [Bool.and_eq_true, decide_eq_true_eq, decide_eq_true_eq] at ht
      exact Int64.toInt_ofInt_of_le (by omega) (by omega)
    simp [hint, Instant.ofSeconds?, ht]

/-- Once the floor of the clocks as they are has come, the token has expired. -/
theorem hasExpired_of_passed {r : TokenRecord} {c : TokenClaims} (hc : Describes r c)
    (hrange : ∀ t ∈ r.expiresAt, Instant.inRange t.seconds = true)
    (h : Passed (Revocation.floor r.expiresAt clocks.offset) clocks.monotonic) :
    Authenticator.hasExpired c.toAccessToken clocks.instant = true := by
  obtain ⟨f, hf, hfle⟩ := h
  obtain ⟨t, ht, rfl⟩ := Option.map_eq_some_iff.mp hf
  have hexp : c.toAccessToken.expiresAt = some ⟨t.seconds, 0⟩ := by
    refine (expiresAt_of_describes hc hrange).trans ?_
    rw [ht]
    rfl
  unfold Authenticator.hasExpired
  rw [hexp]
  refine decide_eq_true ((Instant.le_ofUnixNanos t.seconds clocks.wall).mpr ?_)
  unfold Clocks.offset at hfle
  omega

/-- As long as its floor has not come, a guarded token is found to have its marker. -/
theorem has_of_guards {now : Nat} (h : Guards id floor now m) (hnow : ¬Passed floor now) :
    (m.perform now (.has (Keys.revokedToken id))).1 ≠ .returned (.ok false) := by
  unfold Memory.perform
  split
  · exact fun heq => nomatch heq
  · rename_i hopen
    rcases h with hclosed | hpassed | ⟨e, he, hreach⟩
    · exact absurd hclosed hopen
    · exact absurd hpassed hnow
    · have hfound : m.live? now (Keys.revokedToken id) = some e := by
        unfold Memory.live?
        rw [he]
        exact Option.filter_some_pos (isLive_of_reaches hreach hnow)
      simp [Memory.respond, hfound]

/-- A token that is guarded up to the floor of the clocks as they are is not accepted. -/
theorem not_verified_of_upholds {r : TokenRecord} {c : TokenClaims} {allowed : List AccountType} {a : AccountType}
    (h : Upholds r.id r.expiresAt (Revocation.floor r.expiresAt s.clocks.offset) s) (hc : Describes r c)
    (hrange : ∀ t ∈ r.expiresAt, Instant.inRange t.seconds = true) :
    (s.run (Authenticator.verify c.toAccessToken allowed).run).1 ≠ .returned (.ok a) := by
  intro hrun
  obtain ⟨hlive, hhas⟩ := Authenticator.verify_ok (Prod.ext hrun rfl)
  obtain ⟨m, hm, hguards⟩ := h.engine
  have hanswer := (Service.callEngine_memory_ok hm hhas).1
  rw [show c.toAccessToken.id = r.id from hc.1] at hanswer
  refine has_of_guards hguards (fun hpassed => ?_) hanswer
  rw [hasExpired_of_passed hc hrange hpassed] at hlive
  cases hlive

/-- A revoked token stays rejected. Whatever runs after the revocation, with whatever failures and however the clocks
move, no verification of the token accepts it, as long as the records of the token keep their expiry and the wall
clock never falls back against the forward clock by more than the margin. -/
theorem revoked_stays_rejected {r r' : TokenRecord} {c : TokenClaims} {events : List ServiceEvent}
    {allowed : List AccountType} {a : AccountType} (hm : s.engine = .memory m)
    (hrevoke : s.run (revoke r).run = (.returned (.ok r'), s'))
    (hrecords : ∀ e ∈ s'.store.records.entries, e.2.id = r.id → e.2.expiresAt = r.expiresAt)
    (hevents : ∀ e ∈ events, e.KeepsExpiry r.id r.expiresAt)
    (hclocks : (s'.moments events).Pairwise fun x y : Service => x.clocks.offset ≤ y.clocks.offset + margin.nanos)
    (hc : Describes r c) (hrange : ∀ t ∈ r.expiresAt, Instant.inRange t.seconds = true) :
    ((s'.after events).run (Authenticator.verify c.toAccessToken allowed).run).1 ≠ .returned (.ok a) := by
  have hoff : ∀ x ∈ s'.moments events, x.clocks.offset ≤ (s'.after events).clocks.offset + margin.nanos :=
    Service.rel_after (fun x => Int.le_add_of_nonneg_right (Int.natCast_nonneg _)) hclocks
  have hguarded := upholds_of_revoke hm hrevoke hrecords (hoff s' (Service.self_mem_moments s' events))
  exact not_verified_of_upholds (hguarded.after hevents hoff) hc hrange

/-- A record whose token expires an hour and 500 milliseconds after the start of 1970. -/
def sampleRecord : TokenRecord :=
  { id := "admin_access_tokens:1", kind := .admin, subject := "1", expiresAt := some ⟨3600, 500000000⟩,
    revokedAt := none, createdAt := ⟨0, 0⟩ }

/-- A service at the start of 1970 over an empty engine in memory, with the record in its store. -/
def sampleService : Service :=
  Service.new ⟨0, 0⟩ (.memory (Memory.start 0 none)) (TokenStore.ofList [sampleRecord]) fun _ => 0

/-- The token is revoked an hour before it expires; then the wall clock falls back by an hour, the markers are restored,
time passes until the token has expired by the forward clock, and expired entries are removed. -/
theorem revoked_stays_rejected_when_wall_falls_back :
    ((((sampleService.run (revoke sampleRecord).run).2).after
        [.shiftWall (-3600000000000), .call .loadRevocations, .advance (Span.ofSeconds 7100), .prune]).run
      (Authenticator.verify
        (⟨"admin_access_tokens:1", "1", some 3600, some "admin", Table.empty⟩ : TokenClaims).toAccessToken
        [.admin]).run).1 ≠ .returned (.ok .admin) :=
  have hrevoked : (sampleService.run (revoke sampleRecord).run).1 =
      .returned (.ok { sampleRecord with revokedAt := some ⟨0, 0⟩ }) := by rfl
  revoked_stays_rejected (r := sampleRecord) rfl (Prod.ext hrevoked rfl) (by decide +kernel)
    (by simp [ServiceEvent.KeepsExpiry, ServiceCall.KeepsExpiry]) (by decide +kernel) ⟨rfl, by decide +kernel⟩
    (by decide +kernel)

end Revocation

end Gatehouse
