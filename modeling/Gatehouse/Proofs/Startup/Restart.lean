import Gatehouse.Proofs.Revocation.Ledger
import Gatehouse.Proofs.Startup.Recovery

/-!
# Restarts

Starting over a new engine in memory gets the cache in sync with the records, if nothing fails and every outstanding
record has a deadline for its marker. Records that were revoked while the service ran have such deadlines, so a restart
at any point of a run succeeds, and no verification can tell it (`restart_keeps_verdicts`).
-/

namespace Gatehouse

variable {α β : Type} {s s' : Service} {m : Memory} {r : TokenRecord} {l : Ledger}

/-! ## Actions that complete -/

/-- From every calm service with a ledger, an action gets to a result that satisfies a condition, and it leaves a calm
service with the same ledger. -/
def Completes (l : Ledger) (x : ServiceAction α) (Q : α → Prop) : Prop :=
  ∀ (s : Service) (m : Memory), s.Calm m → s.ledger = l →
    ∃ a s' m', s.run x.run = (.returned (.ok a), s') ∧ Q a ∧ s'.Calm m' ∧ s'.ledger = l

namespace Completes

variable {P Q : α → Prop}

theorem pure {a : α} (h : Q a) : Completes l (Pure.pure a : ServiceAction α) Q :=
  fun s m hs hl => ⟨a, s, m, rfl, h, hs, hl⟩

theorem bind {x : ServiceAction α} {f : α → ServiceAction β} {Q : β → Prop} (hx : Completes l x P)
    (hf : ∀ a, P a → Completes l (f a) Q) : Completes l (x >>= f) Q := by
  intro s m hs hl
  obtain ⟨a, s₁, m₁, hrun, ha, hs₁, hl₁⟩ := hx s m hs hl
  rw [Service.run_bind_of_ok hrun]
  exact hf a ha s₁ m₁ hs₁ hl₁

theorem clock : Completes l (liftM Action.clock : ServiceAction Instant) fun now => now = l.clocks.instant := by
  rintro s m hs rfl
  exact ⟨s.clocks.instant, s, m, rfl, rfl, hs, rfl⟩

theorem record (event : Event) : Completes l (liftM (Action.record event) : ServiceAction Unit) fun _ => True :=
  fun _ m hs hl =>
    ⟨(), _, m, rfl, trivial, ⟨hs.engine, hs.isOpen, hs.engineFaults, hs.storeFaults⟩, hl⟩

/-- The store tells of the outstanding records. -/
theorem revoked (kind : TokenKind) (now : Instant) :
    Completes l (Revocation.store (.revoked kind now)) fun records => records = l.store.revoked kind now := by
  rintro s m hs rfl
  exact ⟨_, s, m, hs.run_store (.revoked kind now), rfl, hs, rfl⟩

/-- A marker is written if there is a deadline for it. -/
theorem mark (h : ∃ deadline, Revocation.markerDeadline? r.expiresAt l.clocks = some deadline) :
    Completes l (Revocation.mark r l.clocks.instant) fun _ => True := by
  rintro s m hs rfl
  obtain ⟨deadline, hdeadline⟩ := h
  have hrun := hs.run_mark r
  rw [show Revocation.markerDeadline? r.expiresAt s.clocks = some deadline from hdeadline] at hrun
  exact ⟨(), _, m.withMarker r.id deadline, hrun, trivial, ⟨rfl, hs.isOpen, hs.engineFaults, hs.storeFaults⟩, rfl⟩

theorem forM {f : α → ServiceAction PUnit} {xs : List α} (h : ∀ a ∈ xs, Completes l (f a) fun _ => True) :
    Completes l (xs.forM f) fun _ => True := by
  induction xs with
  | nil => exact pure trivial
  | cons a xs ih =>
    change Completes l (f a >>= fun _ => xs.forM f) fun _ => True
    exact (h a List.mem_cons_self).bind fun _ _ => ih fun b hb => h b (List.mem_cons_of_mem _ hb)

theorem mapM {f : α → ServiceAction β} {xs : List α} (h : ∀ a ∈ xs, Completes l (f a) fun _ => True) :
    Completes l (xs.mapM f) fun _ => True := by
  induction xs with
  | nil => exact pure trivial
  | cons a xs ih =>
    rw [List.mapM_cons]
    refine (h a List.mem_cons_self).bind ?_
    intro _ _
    exact (ih fun b hb => h b (List.mem_cons_of_mem _ hb)).bind fun _ _ => pure trivial

/-- Loading succeeds if every outstanding record has a deadline for its marker. -/
theorem load (h : ∀ r ∈ l.store.outstanding l.clocks.instant,
      ∃ deadline, Revocation.markerDeadline? r.expiresAt l.clocks = some deadline) :
    Completes l Revocation.load fun _ => True := by
  refine clock.bind ?_
  rintro now rfl
  have hrestore (kind : TokenKind) : Completes l (Revocation.restore l.clocks.instant kind) fun _ => True := by
    refine (revoked kind l.clocks.instant).bind ?_
    rintro records rfl
    exact (forM fun r hr => mark (h r (TokenStore.mem_revoked.mp hr).1)).bind fun _ _ => pure trivial
  refine (mapM fun kind _ => hrestore kind).bind ?_
  intro counts _
  exact (record _).bind fun _ _ => pure trivial

end Completes

namespace Revocation

/-! ## Starting over a new engine -/

/-- A service over a new engine in memory, at the time and with the records of a ledger. -/
def fresh (l : Ledger) (interval : Option Span) (entropy : Nat → Nat) : Service :=
  Service.new l.clocks (.memory (Memory.start l.clocks.monotonic interval)) l.store entropy

theorem calm_fresh (l : Ledger) (interval : Option Span) (entropy : Nat → Nat) :
    (fresh l interval entropy).Calm (Memory.start l.clocks.monotonic interval) := ⟨rfl, rfl, rfl, rfl⟩

/-- Starting over a new engine gets the cache in sync with the records. -/
theorem inSync_of_start {interval : Option Span} {entropy : Nat → Nat} (hkeyed : l.store.Keyed)
    (h : (fresh l interval entropy).start = (.returned (.ok ()), s)) : (∃ m, InSync s m) ∧ s.ledger = l := by
  obtain ⟨total, hload⟩ := Service.start_ok h
  have hcalm := calm_fresh l interval entropy
  obtain ⟨-, hclocks, hstore, m, hm, hmarked⟩ := load_ok hcalm.engine hload
  obtain ⟨m', hm', hcovered⟩ := covered_of_load hcalm.engine hkeyed hload
  obtain rfl := Engine.memory.inj (hm.symm.trans hm')
  have hcalm' : s.Calm m := by
    have hs : ((fresh l interval entropy).run load.run).2 = s := congrArg Prod.snd hload
    rw [← hs]
    exact hcalm.run load.run (hs ▸ hm) hmarked.closed_eq
  refine ⟨⟨m, hcalm', ?_, ?_, fun id e he => ?_⟩, ?_⟩
  · rw [hstore]
    exact hkeyed
  · rw [hstore, hclocks]
    exact hcovered
  · -- A new engine has no entry of its own.
    obtain ⟨r, hr, hid⟩ := (hmarked.exists_of_get? he).resolve_left (fun hnone => nomatch hnone)
    obtain ⟨hholds, hrev, -⟩ := (TokenStore.mem_outstanding hkeyed).mp (TokenStore.mem_flatMap_revoked.mp hr)
    rw [hstore]
    exact ⟨r, hholds, (Keys.revokedToken_inj.mp hid).symm, hrev⟩
  · unfold Service.ledger
    rw [hclocks, hstore]
    rfl

/-- A service in sync can be started again over a new engine, for every outstanding record is covered. -/
theorem InSync.start_fresh (h : InSync s m) (interval : Option Span) (entropy : Nat → Nat) :
    ∃ s', (fresh s.ledger interval entropy).start = (.returned (.ok ()), s') := by
  have hdeadlines : ∀ r ∈ s.ledger.store.outstanding s.ledger.clocks.instant,
      ∃ deadline, markerDeadline? r.expiresAt s.ledger.clocks = some deadline := by
    intro r hr
    obtain ⟨hholds, hrev, hexp⟩ := (TokenStore.mem_outstanding h.keyed).mp hr
    obtain ⟨e, -, hdeadline⟩ := (h.covered r hholds hrev).live? hexp
    exact ⟨e.deadline, hdeadline⟩
  obtain ⟨total, s', -, hload, -⟩ := Completes.load hdeadlines _ _ (calm_fresh s.ledger interval entropy) rfl
  exact ⟨s', Service.start_of_load hload⟩

end Revocation

/-! ## Ordinary runs -/

/-- A record that is not revoked is saved under a new id, a token is revoked by its id with success, a token is
verified, time passes, or expired entries are removed. -/
def ServiceEvent.IsOrdinary (s : Service) : ServiceEvent → Prop
  | call (.saveRecord r) => r.isRevoked = false ∧ s.store.find? r.id = none
  | call (.revokeById id) => ∃ r, (s.run (Revocation.revokeById id).run).1 = .returned (.ok r)
  | call (.verifyToken _ _) | advance _ | prune => True
  | _ => False

/-- Every event of a run is ordinary where it happens. -/
def Service.RunsOrdinarily (s : Service) : List ServiceEvent → Prop
  | [] => True
  | e :: rest => e.IsOrdinary s ∧ (s.apply e).RunsOrdinarily rest

theorem Service.runsOrdinarily_append {before later : List ServiceEvent} :
    s.RunsOrdinarily (before ++ later) ↔ s.RunsOrdinarily before ∧ (s.after before).RunsOrdinarily later := by
  induction before generalizing s with
  | nil => exact ⟨fun h => ⟨trivial, h⟩, And.right⟩
  | cons e rest ih =>
    change e.IsOrdinary s ∧ (s.apply e).RunsOrdinarily (rest ++ later) ↔ _
    rw [ih, ← and_assoc]
    rfl

namespace Revocation

theorem InSync.admits {e : ServiceEvent} (h : InSync s m) (he : e.IsOrdinary s) : s.ledger.Admits e := by
  cases e with
  | call c =>
    cases c with
    | saveRecord r => exact he
    | revokeById id =>
      obtain ⟨r', hok⟩ := he
      obtain ⟨r, deadline, hfind, hdeadline, -⟩ := (h.revokeById_ok_iff h.keyed).mp hok
      exact ⟨r, deadline, hfind, hdeadline⟩
    | verifyToken t allowed => trivial
    | _ => exact he.elim
  | prune => trivial
  | advance d => trivial
  | _ => exact he.elim

/-- The ledger of a service in sync admits every ordinary run. -/
theorem InSync.admitsRun {events : List ServiceEvent} (h : InSync s m) (he : s.RunsOrdinarily events) :
    s.ledger.AdmitsRun events := by
  induction events generalizing s m with
  | nil => trivial
  | cons e rest ih =>
    obtain ⟨he, hrest⟩ := he
    have hadmits := h.admits he
    obtain ⟨⟨m₁, h₁⟩, hledger⟩ := h.apply hadmits
    refine ⟨hadmits, ?_⟩
    rw [← hledger]
    exact ih h₁ hrest

/-- A restart does not change verdicts. At every point of an ordinary run the cache can be thrown away: starting again
over a new engine and the same records succeeds, and whatever ordinary run follows, the verification of the token of a
stored record tells the same as without the restart. -/
theorem restart_keeps_verdicts {interval : Option Span} {entropy : Nat → Nat} (hkeyed : l.store.Keyed)
    (hstart : (fresh l interval entropy).start = (.returned (.ok ()), s)) (before later : List ServiceEvent)
    (hrun : s.RunsOrdinarily (before ++ later)) (interval' : Option Span) (entropy' : Nat → Nat) :
    ∃ s', (fresh (s.after before).ledger interval' entropy').start = (.returned (.ok ()), s') ∧
      ∀ (r : TokenRecord) (c : TokenClaims) (allowed : List AccountType),
        (s.after (before ++ later)).store.Holds r → Describes r c →
        (∀ t ∈ r.expiresAt, Instant.inRange t.seconds = true) →
          ((s'.after later).run (Authenticator.verify c.toAccessToken allowed).run).1 =
            ((s.after (before ++ later)).run (Authenticator.verify c.toAccessToken allowed).run).1 := by
  obtain ⟨⟨m, hsync⟩, -⟩ := inSync_of_start hkeyed hstart
  obtain ⟨hbefore, hlater⟩ := Service.runsOrdinarily_append.mp hrun
  obtain ⟨⟨m₁, hsync₁⟩, -⟩ := hsync.after (hsync.admitsRun hbefore)
  obtain ⟨s', hstart'⟩ := hsync₁.start_fresh interval' entropy'
  obtain ⟨⟨m', hsync'⟩, hledger'⟩ := inSync_of_start hsync₁.keyed hstart'
  refine ⟨s', hstart', fun r c allowed hholds hc hrange => ?_⟩
  -- Both services go on in sync with one ledger.
  have hadmits := hsync₁.admitsRun hlater
  obtain ⟨⟨m₂, hsync₂⟩, hledger₂⟩ := hsync₁.after hadmits
  obtain ⟨⟨m₂', hsync₂'⟩, hledger₂'⟩ := hsync'.after (hledger'.symm ▸ hadmits)
  have hsame : (s'.after later).ledger = ((s.after before).after later).ledger := by
    rw [hledger₂', hledger₂, hledger']
  have happend : s.after (before ++ later) = (s.after before).after later := List.foldl_append
  rw [happend] at hholds ⊢
  have ht := AccessToken.belongsTo_of_describes hc hrange
  have hholds' : (s'.after later).store.Holds r := by
    rw [show (s'.after later).store = ((s.after before).after later).store from congrArg Ledger.store hsame]
    exact hholds
  rw [hsync₂'.verify_tells hholds' ht allowed, hsync₂.verify_tells hholds ht allowed, hsame]

/-- The start of 1970, with the record of a token of a system that never expires. -/
def sampleLedger : Ledger :=
  ⟨⟨0, 0⟩, TokenStore.ofList
    [{ id := "system_access_tokens:1", kind := .system, subject := "1", expiresAt := none, revokedAt := none,
       createdAt := ⟨0, 0⟩ }]⟩

/-- A token is issued and revoked, and time passes until its claims say that it has expired but its record does not; at
that time the service is started again. The verdict on the token is the same a fifth of a second later. -/
theorem restart_keeps_verdicts_between_claim_and_record :
    ∃ s', (fresh (((fresh sampleLedger none fun _ => 0).start.2.after
          [.call (.saveRecord sampleRecord), .call (.revokeById "admin_access_tokens:1"),
            .advance (Span.ofSeconds 3600)])).ledger none fun _ => 0).start = (.returned (.ok ()), s') ∧
      ((s'.after [.advance (Span.ofMillis 200)]).run
        (Authenticator.verify
          (⟨"admin_access_tokens:1", "1", some 3600, some "admin", Table.empty⟩ : TokenClaims).toAccessToken
          [.admin]).run).1 =
      (((fresh sampleLedger none fun _ => 0).start.2.after
          [.call (.saveRecord sampleRecord), .call (.revokeById "admin_access_tokens:1"),
            .advance (Span.ofSeconds 3600), .advance (Span.ofMillis 200)]).run
        (Authenticator.verify
          (⟨"admin_access_tokens:1", "1", some 3600, some "admin", Table.empty⟩ : TokenClaims).toAccessToken
          [.admin]).run).1 := by
  have hstarted : (fresh sampleLedger none fun _ => 0).start.1 = .returned (.ok ()) := by rfl
  obtain ⟨s', hstart', hsame⟩ :=
    restart_keeps_verdicts (TokenStore.keyed_ofList _) (Prod.ext hstarted rfl)
      [.call (.saveRecord sampleRecord), .call (.revokeById "admin_access_tokens:1"), .advance (Span.ofSeconds 3600)]
      [.advance (Span.ofMillis 200)] ⟨⟨rfl, by decide +kernel⟩, ⟨_, rfl⟩, trivial, trivial, trivial⟩ none fun _ => 0
  exact ⟨s', hstart', hsame (sampleRecord.revokedBy ⟨0, 0⟩) _ [.admin] (by decide +kernel) ⟨rfl, by decide +kernel⟩
    (by decide +kernel)⟩

end Revocation

end Gatehouse
