import Gatehouse.Proofs.Cache.Lasting
import Gatehouse.Proofs.Revocation.Totality

/-!
# How long markers are reported

The lifetime of a marker is a signed difference made into a span. Each engine makes a deadline of that in its own way,
exact or in whole milliseconds, so the moment from which a marker is not reported any more is not quite the end of the
margin. It is less than two milliseconds before that, and after it only if the margin was over, or nearly so, when the
marker was written (`IsDue`). That holds on all three engines (`marker_outlives_token`).
-/

namespace Gatehouse

/-! ## Moments on the wall clock -/

/-- The reading of the wall clock at which something is to go, if the clocks keep the distance that they have. -/
def Expiry.moment (clocks : Clocks) : Expiry → Int
  | forward nanos => nanos + clocks.offset
  | wall millis => millis * 1000000

/-- While the clocks move together, something is still to go just before its moment. -/
theorem Expiry.isAhead_advance {clocks : Clocks} (hepoch : 0 ≤ clocks.wall) (x : Expiry) (d : Span) :
    x.isAhead (clocks.advance d) = decide ((clocks.advance d).wall < x.moment clocks) := by
  cases x with
  | forward nanos =>
    unfold isAhead moment Clocks.offset Clocks.advance
    simp only [decide_eq_decide]
    omega
  | wall millis =>
    unfold isAhead moment Clocks.unixMillis Clocks.advance
    simp only [decide_eq_decide]
    omega

namespace Revocation

variable {expiresAt : Option Instant} {clocks : Clocks} {t last : Instant} {d : Span} {lifetime : Option Span}

/-! ## The moment at which a marker is to go -/

/-- The span for which a marker is written while the margin after the expiry of its token is to end at a time: what is
left of that, or the least lifetime if it is over. -/
def IsSpan (now last : Int) (d : Span) : Prop := now + d.nanos = last ∨ last ≤ now ∧ d.nanos = minLifetime.nanos

theorem minLifetime_nanos : minLifetime.nanos = 1000000 := rfl

/-- A marker is written for ever if its token never expires, and else for a span, which is never zero. -/
theorem lifetime_cases (h : markerLifetime expiresAt clocks.instant = .returned lifetime) :
    expiresAt = none ∧ Cache.lifetime lifetime = none ∨
      ∃ t last d, expiresAt = some t ∧ t.add? margin = some last ∧ Cache.lifetime lifetime = some d ∧
        IsSpan clocks.wall last.unixNanos d := by
  cases expiresAt with
  | none =>
    cases h
    exact .inl ⟨rfl, rfl⟩
  | some t =>
    simp only [markerLifetime] at h
    cases hlast : t.add? margin with
    | none =>
      rw [hlast] at h
      cases h
    | some last =>
      have hpositive {d : Span} (hd : d.nanos ≠ 0) : Cache.lifetime (some d) = some d :=
        Option.filter_some_pos (decide_eq_true hd)
      simp only [hlast, since_instant] at h
      split at h
      · rename_i hover
        cases h
        exact .inr ⟨t, last, minLifetime, rfl, hlast, hpositive (by decide), .inr ⟨by omega, rfl⟩⟩
      · rename_i hleft
        cases h
        refine .inr ⟨t, last, _, rfl, hlast, hpositive ?_, .inl ?_⟩
        · simp only
          omega
        · simp only
          omega

/-- The moment from which a marker that is written now is not reported any more, if it is one. There is none just if the
token never expires. Else it is later than two milliseconds before the end of the margin, and no later than that end or
the least lifetime from now, whichever is later. -/
structure IsDue (expiresAt : Option Instant) (now : Int) (moment : Option Int) : Prop where
  never : moment = none ↔ expiresAt = none
  late : ∀ t ∈ expiresAt, ∀ last ∈ t.add? margin, ∀ m ∈ moment, last.unixNanos - 2000000 < m
  soon : ∀ t ∈ expiresAt, ∀ last ∈ t.add? margin, ∀ m ∈ moment, m ≤ max last.unixNanos (now + minLifetime.nanos)

/-- The end of a margin is less than twenty million million seconds after 1970. -/
theorem unixNanos_lt_of_add_margin (h : t.add? margin = some last) : last.unixNanos < 20000000000000 * 1000000000 := by
  have hsince : last.since (Instant.ofUnixNanos 0) < 20000000000000 * 1000000000 := since_lt_of_add_margin (by decide) h
  unfold Instant.since at hsince
  rw [Instant.unixNanos_ofUnixNanos] at hsince
  omega

/-- An engine ends a lifetime at a moment that suits a marker of that lifetime. -/
def Suits (clocks : Clocks) (expiry : Span → Expiry) : Prop :=
  ∀ (last : Int) (d : Span), last < 20000000000000 * 1000000000 → IsSpan clocks.wall last d →
    last - 2000000 < (expiry d).moment clocks ∧ (expiry d).moment clocks ≤ max last (clocks.wall + minLifetime.nanos)

theorem isDue_of_suits {expiry : Span → Expiry} (hsuits : Suits clocks expiry)
    (h : markerLifetime expiresAt clocks.instant = .returned lifetime) :
    IsDue expiresAt clocks.wall ((Cache.lifetime lifetime).map fun d => (expiry d).moment clocks) := by
  rcases lifetime_cases h with ⟨rfl, hnone⟩ | ⟨t, last, d, rfl, hlast, hd, hspan⟩
  · rw [hnone]
    exact ⟨iff_of_true rfl rfl, nofun, nofun⟩
  · obtain ⟨hlate, hsoon⟩ := hsuits last.unixNanos d (unixNanos_lt_of_add_margin hlast) hspan
    rw [hd, Option.map_some]
    refine ⟨iff_of_false nofun nofun, ?_, ?_⟩
    · rintro _ ⟨⟩ last' hlast' _ ⟨⟩
      cases hlast.symm.trans hlast'
      exact hlate
    · rintro _ ⟨⟩ last' hlast' _ ⟨⟩
      cases hlast.symm.trans hlast'
      exact hsoon

/-! ## When the three engines end lifetimes -/

theorem suits_memory (clocks : Clocks) : Suits clocks (Memory.leasing.expiry clocks) := by
  intro last d _ hspan
  have hmoment : (Memory.leasing.expiry clocks d).moment clocks = clocks.wall + d.nanos := by
    change ((clocks.monotonic + d.nanos : Nat) : Int) + clocks.offset = _
    unfold Clocks.offset
    omega
  unfold IsSpan at hspan
  rw [minLifetime_nanos] at hspan ⊢
  rw [hmoment]
  omega

theorem suits_embedded (hepoch : 0 ≤ clocks.wall) : Suits clocks (Embedded.leasing.expiry clocks) := by
  intro last d hlast hspan
  have hmoment : (Embedded.leasing.expiry clocks d).moment clocks =
      (Stored.deadlineAt clocks.unixMillis (some d) : Nat) * 1000000 := rfl
  unfold IsSpan at hspan
  rw [minLifetime_nanos] at hspan ⊢
  unfold Stored.deadlineAt Span.millisWord Span.millis Clocks.unixMillis Stored.maxDeadline at hmoment
  rw [hmoment]
  simp only
  omega

theorem suits_server {σ : Type} {S : Server σ} (hS : S.Documented) (hsteady : S.Steady) (hepoch : 0 ≤ clocks.wall) :
    Suits clocks ((Server.leasing hS hsteady).expiry clocks) := by
  intro last d hlast hspan
  have hmoment : ((Server.leasing hS hsteady).expiry clocks d).moment clocks =
      (clocks.unixMillis + max 1 d.millisWord : Nat) * 1000000 := rfl
  unfold IsSpan at hspan
  rw [minLifetime_nanos] at hspan ⊢
  unfold Span.millisWord Span.millis Clocks.unixMillis at hmoment
  rw [hmoment]
  omega

end Revocation

/-! ## Markers over an engine -/

namespace Backend

variable {σ : Type} (B : Backend σ) (clocks : Clocks) (s : σ)

/-- Writes the marker of a record now. -/
def mark (r : TokenRecord) : Outcome (Except ServiceError Unit) × σ :=
  (Revocation.mark r clocks.instant).run.run (B.handler clocks) s

/-- The marker of a record is written now. -/
def Marks (r : TokenRecord) : Prop := (B.mark clocks s r).1 = .returned (.ok ())

/-- What the cache answers when it is asked for the marker of a record that was written now, after a run. -/
def tells (r : TokenRecord) (steps : List CacheStep) : Outcome (Except CacheError Bool) :=
  (B.run (clocks.after steps) (B.after clocks (B.mark clocks s r).2 steps) (.has (Keys.revokedToken r.id))).1

/-- The cache reports the marker of a record, written now, until a moment on the wall clock and not from then on, or for
ever if there is none, as long as the marker is left alone. -/
def Reports (r : TokenRecord) (moment : Option Int) : Prop :=
  ∀ steps : List CacheStep, (∀ e ∈ steps, e.Spares (Keys.revokedToken r.id)) →
    B.tells clocks s r steps = .returned (.ok (moment.all fun t => (clocks.after steps).wall < t))

variable {B clocks s} {r : TokenRecord} {lifetime : Option Span}

/-- A failure of the cache fails the service, with it as the cause. -/
theorem run_lift {α : Type} (x : CacheAction α) :
    (CacheAction.lift x).run.run (B.handler clocks) s =
      ((x.run.run (B.handler clocks) s).1.map fun a => a.mapError ServiceError.cache,
        (x.run.run (B.handler clocks) s).2) := by
  change (x.run >>= fun a => Action.done (a.mapError ServiceError.cache)).run (B.handler clocks) s = _
  rw [Action.run_bind]
  obtain ⟨o, s₁⟩ := x.run.run (B.handler clocks) s
  cases o <;> rfl

/-- A marker is written by one call of the engine. -/
theorem mark_eq (h : Revocation.markerLifetime r.expiresAt clocks.instant = .returned lifetime) :
    B.mark clocks s r =
      ((B.perform clocks s (Revocation.markerCall r.id lifetime)).1.map fun a => a.mapError ServiceError.cache,
        (B.perform clocks s (Revocation.markerCall r.id lifetime)).2) := by
  unfold mark Revocation.mark
  rw [h]
  change (CacheAction.lift (Cache.counted .put (Revocation.markerCall r.id lifetime))).run.run (B.handler clocks) s = _
  rw [run_lift, run_counted]

/-- A marker that is written has a lifetime, and the engine has taken it. -/
theorem Marks.exists_lifetime (h : B.Marks clocks s r) :
    ∃ lifetime, Revocation.markerLifetime r.expiresAt clocks.instant = .returned lifetime ∧
      (B.perform clocks s (Revocation.markerCall r.id lifetime)).1 = .returned (.ok ()) := by
  unfold Marks at h
  cases hlife : Revocation.markerLifetime r.expiresAt clocks.instant with
  | abandoned =>
    unfold mark Revocation.mark at h
    rw [hlife] at h
    cases h
  | returned lifetime =>
    refine ⟨lifetime, rfl, ?_⟩
    rw [mark_eq hlife] at h
    revert h
    cases (B.perform clocks s (Revocation.markerCall r.id lifetime)).1 with
    | abandoned => exact nofun
    | returned a =>
      cases a with
      | error e => exact nofun
      | ok u => exact fun _ => rfl

theorem marks_of_perform (hlife : Revocation.markerLifetime r.expiresAt clocks.instant = .returned lifetime)
    (h : (B.perform clocks s (Revocation.markerCall r.id lifetime)).1 = .returned (.ok ())) :
    B.Marks clocks s r := by
  unfold Marks
  rw [mark_eq hlife, h]
  rfl

end Backend

/-- A marker is reported until the moment at which the engine lets its lifetime end. -/
theorem Lasting.reports_of_marks {σ : Type} {B : Backend σ} (L : Lasting B) {clocks : Clocks} {s : σ} {r : TokenRecord}
    (hepoch : 0 ≤ clocks.wall) (hs : L.Kind s) (h : B.Marks clocks s r) :
    ∃ lifetime, Revocation.markerLifetime r.expiresAt clocks.instant = .returned lifetime ∧
      B.Reports clocks s r ((Cache.lifetime lifetime).map fun d => (L.expiry clocks d).moment clocks) := by
  obtain ⟨lifetime, hlife, hput⟩ := h.exists_lifetime
  refine ⟨lifetime, hlife, fun steps hsteps => ?_⟩
  have hmoment : ((Cache.lifetime lifetime).map (L.expiry clocks)).all (fun x => x.isAhead (clocks.after steps)) =
      ((Cache.lifetime lifetime).map fun d => (L.expiry clocks d).moment clocks).all
        fun t => (clocks.after steps).wall < t := by
    rw [Clocks.after_eq]
    cases Cache.lifetime lifetime with
    | none => rfl
    | some d => exact Expiry.isAhead_advance hepoch _ _
  unfold Backend.tells
  rw [Backend.mark_eq hlife, ← hmoment]
  exact L.has_after_put hs hput hsteps

/-- The marker of a record is written if the engine is able to, and a marker that is written is reported until the
moment at which it is to go. -/
structure Backend.Commemorates {σ : Type} (B : Backend σ) (clocks : Clocks) (s : σ) (r : TokenRecord) (able : Prop) :
    Prop where
  written : able → B.Marks clocks s r
  reported : B.Marks clocks s r →
    ∃ moment, Revocation.IsDue r.expiresAt clocks.wall moment ∧ B.Reports clocks s r moment

namespace Backend.Commemorates

variable {σ : Type} {B : Backend σ} {clocks : Clocks} {s : σ} {r : TokenRecord} {able : Prop} {t last : Instant}
  {steps : List CacheStep}

/-- A marker is reported up to two milliseconds before the end of the margin. -/
theorem has_before (h : B.Commemorates clocks s r able) (hable : able) (ht : r.expiresAt = some t)
    (hlast : t.add? Revocation.margin = some last) (hsteps : ∀ e ∈ steps, e.Spares (Keys.revokedToken r.id))
    (hbefore : (clocks.after steps).wall ≤ last.unixNanos - 2000000) :
    B.tells clocks s r steps = .returned (.ok true) := by
  obtain ⟨moment, hdue, hreports⟩ := h.reported (h.written hable)
  have hahead : (moment.all fun m => (clocks.after steps).wall < m) = true := by
    rw [Option.all_eq_true]
    exact fun m hm => decide_eq_true (Int.lt_of_le_of_lt hbefore (hdue.late t ht last hlast m hm))
  rw [hreports steps hsteps, hahead]

/-- A marker is not reported any more once the margin has ended and the least lifetime has passed. -/
theorem has_over (h : B.Commemorates clocks s r able) (hable : able) (ht : r.expiresAt = some t)
    (hlast : t.add? Revocation.margin = some last) (hsteps : ∀ e ∈ steps, e.Spares (Keys.revokedToken r.id))
    (hover : max last.unixNanos (clocks.wall + Revocation.minLifetime.nanos) ≤ (clocks.after steps).wall) :
    B.tells clocks s r steps = .returned (.ok false) := by
  obtain ⟨moment, hdue, hreports⟩ := h.reported (h.written hable)
  have hgone : (moment.all fun m => (clocks.after steps).wall < m) = false := by
    cases moment with
    | none => cases ht.symm.trans (hdue.never.mp rfl)
    | some m => exact decide_eq_false (Int.not_lt.mpr (Int.le_trans (hdue.soon t ht last hlast m rfl) hover))
  rw [hreports steps hsteps, hgone]

end Backend.Commemorates

namespace Revocation

variable {expiresAt : Option Instant} {clocks : Clocks} {lifetime : Option Span}

/-- An engine whose lifetimes end at moments that suit markers reports them until the moment at which they are to go. -/
theorem commemorates_of_suits {σ : Type} {B : Backend σ} {s : σ} {r : TokenRecord} {able : Prop} (L : Lasting B)
    (hepoch : 0 ≤ clocks.wall) (hs : L.Kind s) (hsuits : Suits clocks (L.expiry clocks))
    (hmargin : ∀ t ∈ r.expiresAt, (t.add? margin).isSome = true)
    (hwritten : able → ∀ lifetime, markerLifetime r.expiresAt clocks.instant = .returned lifetime →
      (B.perform clocks s (markerCall r.id lifetime)).1 = .returned (.ok ())) :
    B.Commemorates clocks s r able where
  written hable := by
    have hends := (markerLifetime_ne_abandoned_iff r.expiresAt clocks.instant).mpr hmargin
    cases hlife : markerLifetime r.expiresAt clocks.instant with
    | abandoned => exact absurd hlife hends
    | returned lifetime => exact Backend.marks_of_perform hlife (hwritten hable lifetime hlife)
  reported hmarks := by
    obtain ⟨lifetime, hlife, hreports⟩ := L.reports_of_marks hepoch hs hmarks
    exact ⟨_, isDue_of_suits hsuits hlife, hreports⟩

/-! ## The three engines -/

/-- A server takes the deadline of every marker, as long as the time is one that exists. -/
theorem proper_of_markerLifetime (hepoch : 0 ≤ clocks.wall) (hwall : Instant.inRange clocks.instant.seconds = true)
    (key : String) (b : Bytes) (h : markerLifetime expiresAt clocks.instant = .returned lifetime) :
    (Command.set key b ((Cache.lifetime lifetime).map fun d => max 1 d.millisWord)).Proper clocks.unixMillis := by
  intro n hn
  obtain ⟨d, hd, rfl⟩ := Option.map_eq_some_iff.mp hn
  refine ⟨Nat.le_max_left 1 _, ?_⟩
  rcases lifetime_cases h with ⟨-, hnone⟩ | ⟨t, last, d', -, hlast, hd', hspan⟩
  · cases hnone.symm.trans hd
  · obtain rfl := Option.some.inj (hd'.symm.trans hd)
    have hlimit := unixNanos_lt_of_add_margin hlast
    have hnow : clocks.wall / 1000000000 ≤ Instant.lastSecond := of_decide_eq_true (Bool.and_eq_true_iff.mp hwall).2
    unfold IsSpan at hspan
    rw [minLifetime_nanos] at hspan
    unfold Instant.lastSecond at hnow
    unfold Clocks.unixMillis Span.millisWord Span.millis Command.deadlineLimit
    omega

/-- The marker of a record outlives its token by the margin, give or take two milliseconds, on each of the three
engines. It is written if the engine is open; one in memory must have a deadline for it too, and a server must be asked
at a time that exists. It is reported for ever just if the token never expires. Else it is reported until a moment later
than two milliseconds before the end of the margin, and no later than that end or the least lifetime after the marker is
written, whichever is later. Nothing is rounded up, also where an engine counts milliseconds. -/
theorem marker_outlives_token {σ : Type} {S : Server σ} (hS : S.Documented) (hsteady : S.Steady) (clocks : Clocks)
    (hepoch : 0 ≤ clocks.wall) (r : TokenRecord) (hmargin : ∀ t ∈ r.expiresAt, (t.add? margin).isSome = true) :
    (∀ m : Memory, Backend.engine.Commemorates clocks (.memory m) r
      (m.closed = false ∧ (markerDeadline? r.expiresAt clocks).isSome = true)) ∧
    (∀ s : Embedded, Backend.engine.Commemorates clocks (.embedded s) r (s.isOpen = true)) ∧
    (∀ q : Session σ, S.Sound q.far →
      S.backend.Commemorates clocks q r (q.isOpen = true ∧ Instant.inRange clocks.instant.seconds = true)) := by
  refine ⟨fun m => ?_, fun s => ?_, fun q hq => ?_⟩
  · refine commemorates_of_suits Memory.lasting hepoch ⟨m, rfl⟩ (suits_memory clocks) hmargin ?_
    rintro ⟨hopen, hdeadline⟩ lifetime hlife
    obtain ⟨deadline, hdeadline⟩ := Option.isSome_iff_exists.mp hdeadline
    rw [Memory.engine_perform, Memory.perform_markerCall hopen hlife, hdeadline]
  · refine commemorates_of_suits Embedded.lasting hepoch ⟨s, rfl⟩ (suits_embedded hepoch) hmargin ?_
    intro hopen lifetime hlife
    rw [Embedded.engine_perform, Embedded.perform_of_open _ _ hopen]
    rfl
  · refine commemorates_of_suits (Server.lasting hS hsteady) hepoch hq (suits_server hS hsteady hepoch) hmargin ?_
    rintro ⟨hopen, hwall⟩ lifetime hlife
    obtain ⟨far, hask, -, -⟩ := Client.ask_anything q.client hS hq clocks.unixMillis
      (proper_of_markerLifetime hepoch hwall (Keys.revokedToken r.id) (Json.encode true) hlife)
    rw [Server.perform_of_open hopen]
    simp only [markerCall, Client.perform, Client.settled, hask]

/-- The marker of a token that has just expired is there but a second before the margin is over, and gone a second
after that. -/
theorem marker_outlives_token_of_an_hour :
    let clocks : Clocks := ⟨1700000000000500000, 1000000000000000⟩
    let r : TokenRecord :=
      ⟨"admin_access_tokens:1", .admin, "admin-1", some ⟨1700000000, 1⟩, none, ⟨1690000000, 0⟩⟩
    let early : List CacheStep := [.advance (Span.ofSeconds 3599), .call (.keys "")]
    let late : List CacheStep := [.advance (Span.ofSeconds 3601), .call (.keys "")]
    let memory : Engine := .memory (Memory.start 0 none)
    let embedded : Engine := .embedded (Embedded.openStore Table.empty false)
    let session : Session Keyspace := ⟨Client.new (Span.ofSeconds 1) 0, true, {}⟩
    (Backend.engine.Marks clocks memory r ∧ Backend.engine.tells clocks memory r early = .returned (.ok true) ∧
      Backend.engine.tells clocks memory r late = .returned (.ok false)) ∧
    (Backend.engine.Marks clocks embedded r ∧ Backend.engine.tells clocks embedded r early = .returned (.ok true) ∧
      Backend.engine.tells clocks embedded r late = .returned (.ok false)) ∧
    Keyspace.repeating.backend.Marks clocks session r ∧
      Keyspace.repeating.backend.tells clocks session r early = .returned (.ok true) ∧
      Keyspace.repeating.backend.tells clocks session r late = .returned (.ok false) := by
  intro clocks r early late memory embedded session
  have hspares (d : Span) : ∀ e ∈ [CacheStep.advance d, .call (.keys "")], e.Spares (Keys.revokedToken r.id) :=
    List.forall_mem_cons.mpr ⟨trivial, List.forall_mem_singleton.mpr trivial⟩
  have hlast : (⟨1700000000, 1⟩ : Instant).add? margin = some ⟨1700003600, 1⟩ := by decide
  have hmargin : ∀ t ∈ r.expiresAt, (t.add? margin).isSome = true := by
    rintro _ ⟨⟩
    exact Option.isSome_of_eq_some hlast
  obtain ⟨hm, hs, hq⟩ := marker_outlives_token Keyspace.repeating_documented Keyspace.repeating_steady clocks
    (by decide) r hmargin
  have hmemory := hm (Memory.start 0 none)
  have hembedded := hs (Embedded.openStore Table.empty false)
  have hsession := hq session trivial
  have hable : (Memory.start 0 none).closed = false ∧ (markerDeadline? r.expiresAt clocks).isSome = true :=
    ⟨rfl, by decide⟩
  have hable' : session.isOpen = true ∧ Instant.inRange clocks.instant.seconds = true := ⟨rfl, by decide⟩
  exact ⟨⟨hmemory.written hable, hmemory.has_before hable rfl hlast (hspares _) (by decide),
      hmemory.has_over hable rfl hlast (hspares _) (by decide)⟩,
    ⟨hembedded.written rfl, hembedded.has_before rfl rfl hlast (hspares _) (by decide),
      hembedded.has_over rfl rfl hlast (hspares _) (by decide)⟩,
    hsession.written hable', hsession.has_before hable' rfl hlast (hspares _) (by decide),
    hsession.has_over hable' rfl hlast (hspares _) (by decide)⟩

end Revocation

end Gatehouse
