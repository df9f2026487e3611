import Gatehouse.Proofs.Cache.Closed
import Gatehouse.Proofs.Revocation.FirstTime
import Gatehouse.Startup

/-!
# Closing is final

Nothing that the service does with a closed engine can succeed but what makes do without an answer: attempts that
cannot be listed count as none. No step of the service opens the engine again (`closing_is_final`).
-/

namespace Gatehouse

/-! ## Services over a closed engine -/

namespace Service

variable {s s' : Service}

/-- Whether the engine of a service is closed. -/
def Closed (s : Service) : Prop := s.engine.isOpen = false

/-- Over a closed engine every call fails: as planned, or because the engine is closed. -/
theorem Closed.callEngine (h : s.Closed) (c : EngineCall) :
    ∃ e, (s.callEngine c).1 = .returned (.error e) ∧
      (s.engineFaults.next c.method = none → e = .engineClosed) := by
  unfold Service.callEngine
  split
  · rename_i e heq
    refine ⟨e, rfl, fun hnone => ?_⟩
    rw [heq] at hnone
    cases hnone
  · rw [Engine.perform_of_closed h]
    exact ⟨.engineClosed, rfl, fun _ => rfl⟩

theorem Closed.answer (h : s.Closed) (r : Request) : (s.answer r).2.Closed := by
  cases r with
  | engine c =>
    change (s.callEngine c).2.Closed
    unfold Service.callEngine
    split
    · exact h
    · rw [Engine.perform_of_closed h]
      exact h
  | store c =>
    change (s.callStore c).2.engine.isOpen = false
    rw [s.callStore_engine]
    exact h
  | _ => exact h

/-- Nothing that happens to a service opens its engine. -/
theorem Closed.apply (h : s.Closed) (e : ServiceEvent) : (s.apply e).Closed := by
  cases e with
  | call c => exact run_preserves (I := Closed) (fun r _ hs => hs.answer r) c.action.run h
  | prune => exact (Engine.isOpen_prune _ _).trans h
  | advance d => exact (Engine.isOpen_tick _ _).trans h
  | advanceMonotonic d => exact (Engine.isOpen_tick _ _).trans h
  | _ => exact h

/-- The service is closed when a close has been answered by its engine. -/
theorem closed_of_close (h : s.run Cache.close.run = (.returned (.ok ()), s')) : s'.Closed := by
  have hrun : s.run Cache.close.run = s.callEngine .close := run_request (.engine .close)
  rw [hrun] at h
  unfold callEngine at h
  split at h
  · cases h
  · obtain rfl : _ = s' := congrArg Prod.snd h
    exact Engine.isOpen_close _ _

/-- A service that has stopped has closed its cache. -/
theorem closed_of_stop (h : s.stop = (.returned (.ok ()), s')) : s'.Closed := by
  unfold stop at h
  cases hrun : s.run Cache.close.run with
  | mk o s₁ =>
    rw [hrun] at h
    cases o with
    | abandoned => cases h
    | returned r =>
      cases r with
      | error e => cases h
      | ok u =>
        cases h
        exact closed_of_close hrun

end Service

/-! ## What can still succeed -/

/-- The protocol of an action over a closed engine: it is reckoned that every call of the engine fails. -/
def refusing : Protocol where
  admits _ := True
  tells
    | .engine _, x => ∃ e, x = .error e
    | _, _ => True
  abandons := True

variable {ε α : Type}

theorem refusing_opens : refusing.Opens fun _ => True :=
  ⟨fun _ _ _ _ => trivial, fun _ _ ⟨_, h⟩ => (nomatch h), trivial, fun _ => trivial⟩

/-- What needs an answer of the engine does not succeed. -/
def Refused (x : ExceptT ε Action α) : Prop := Observes refusing x fun _ => False

namespace Refused

theorem mono {Q : α → Prop} {x : ExceptT ε Action α} (h : Refused x) : Observes refusing x Q :=
  Observes.mono h fun _ hfalse => hfalse.elim

theorem bind {β : Type} {x : ExceptT ε Action α} (h : Refused x) (f : α → ExceptT ε Action β) : Refused (x >>= f) :=
  Observes.bind h fun _ hfalse => hfalse.elim

theorem liftCache {x : CacheAction α} (h : Refused x) : Refused (CacheAction.lift x) := Observes.liftCache h

theorem uncounted (c : EngineCall) : Refused (Cache.uncounted c) :=
  (Cache.uncounted_observes (P := refusing) trivial).mono fun _ h => nomatch h

theorem counted (op : Operation) (c : EngineCall) : Refused (Cache.counted op c) :=
  (Cache.counted_observes (P := refusing) (fun _ => trivial) trivial).mono fun _ h => nomatch h

theorem put [Json.Encode α] (key : String) (value : α) (expiration : Option Span) :
    Refused (Cache.put key value expiration) := by
  unfold Cache.put
  split
  · exact counted _ _
  · exact Observes.throw _

/-! ### Limiters and codes -/

theorem recordAt (l : Limiter) (second : Int64) : Refused (l.recordAt second) := (put _ _ _).liftCache

theorem record (l : Limiter) : Refused l.record :=
  (Observes.lift (Action.follows_request (P := refusing) (r := .clock) trivial)).bind fun _ _ => recordAt l _

theorem clear (l : Limiter) : Refused l.clear := (counted _ _).liftCache.bind _

/-- An issue gets past its limiter, for what cannot be listed does not count, but its code is not put. -/
theorem issue (settings : CodeSettings) (medium credential : String) :
    Refused (OneTimeCode.issue settings medium credential) := by
  refine Observes.bind (Limiter.guard_observes refusing_opens trivial _) fun _ _ => ?_
  have hgenerate : (OneTimeCode.generate settings.length).Follows refusing fun _ => True := by
    unfold OneTimeCode.generate
    split
    · exact Action.Follows.bind (Action.follows_request (r := .draw _ _) trivial) fun _ _ => trivial
    · exact trivial
  refine Observes.bind (Observes.lift hgenerate) fun code _ => ?_
  exact (put _ _ _).liftCache.bind _

theorem verifyCode (settings : CodeSettings) (medium credential code : String) :
    Refused (OneTimeCode.verify settings medium credential code) := (counted _ _).liftCache.bind _

/-! ### Tokens -/

theorem mark (r : TokenRecord) (now : Instant) : Refused (Revocation.mark r now) :=
  Observes.bind (Observes.ofOutcome (Q := fun _ => True) trivial fun _ _ => trivial) fun _ _ => (put _ _ _).liftCache

theorem conclude (r : TokenRecord) (now : Instant) : Refused (Revocation.conclude r now) := (mark r now).bind _

/-- A revocation may still save the record, but its marker is not put. -/
theorem revoke (r : TokenRecord) : Refused (Revocation.revoke r) := by
  rw [Revocation.revoke_eq]
  refine Observes.bind (Observes.lift (Action.follows_request (r := .clock) trivial)) fun now _ => ?_
  split
  · exact conclude r now
  · exact Observes.bind (Revocation.store_observes (P := refusing) trivial) fun _ _ => conclude _ now

theorem revokeById (id : String) : Refused (Revocation.revokeById id) := by
  refine Observes.bind (Revocation.store_observes (P := refusing) trivial) fun found _ => ?_
  cases found with
  | none => exact Observes.throw _
  | some r => exact revoke r

/-- Revocations are restored only if there are none. -/
theorem restore (now : Instant) (kind : TokenKind) :
    Observes refusing (Revocation.restore now kind) fun n => n = 0 := by
  refine Observes.bind (Revocation.store_observes (P := refusing) trivial) fun records _ => ?_
  cases records with
  | nil => exact Observes.pure (P := refusing) (a := 0) rfl
  | cons r records => exact (((mark r now).bind fun _ => records.forM fun r => Revocation.mark r now).bind _).mono

theorem load : Observes refusing Revocation.load fun n => n = 0 := by
  refine Observes.bind (Observes.lift (Action.follows_request (r := .clock) trivial)) fun now _ => ?_
  refine Observes.bind (Observes.mapM fun kind _ => restore now kind) fun counts hcounts => ?_
  have hsum : counts.foldl (· + ·) 0 = 0 := by
    rw [← List.sum_eq_foldl]
    exact List.sum_eq_zero_iff_forall_eq_nat.mpr hcounts
  exact Observes.bind (Observes.lift (Action.follows_request (r := .record _) trivial)) fun _ _ => Observes.pure hsum

theorem isRevoked (id : String) : Refused (Revocation.isRevoked id) := (counted _ _).liftCache

theorem accept (t : AccessToken) (allowed : List AccountType) : Refused (Authenticator.accept t allowed) :=
  (isRevoked t.id).bind _

theorem verifyToken (t : AccessToken) (allowed : List AccountType) : Refused (Authenticator.verify t allowed) := by
  cases hexp : t.expiresAt.isSome with
  | false =>
    rw [Authenticator.verify_of_unexpiring hexp]
    exact accept t allowed
  | true =>
    rw [Authenticator.verify_of_expiring hexp]
    refine Observes.bind (Observes.lift (Action.follows_request (r := .clock) trivial)) fun now _ => ?_
    split
    · exact Observes.throw _
    · exact accept t allowed

end Refused

namespace Limiter

/-- Attempts that cannot be listed count as none. -/
theorem count_follows_refusing (l : Limiter) : l.count.Follows refusing fun n => n = 0 := by
  refine Action.Follows.bind (Refused.counted .scan (.keys l.attemptStem)) fun r hr => ?_
  cases r with
  | ok keys => exact (hr keys rfl).elim
  | error e => exact rfl

end Limiter

namespace ServiceCall

/-- What a call may end well with over a closed cache: attempts count as none, an action may pass a limiter, records are
saved, and revocations are loaded if there are none. Nothing else succeeds. -/
def MakesDo : (c : ServiceCall) → c.Reply → Prop
  | countAttempts _ _ _, n => n = 0
  | loadRevocations, n => n = 0
  | guardAttempts _ _ _ _, _ | saveRecord _, _ => True
  | recordAttempt _ _ _, _ | recordAttemptAt _ _ _ _, _ | clearAttempts _ _ _, _ | issueCode _ _ _, _
  | verifyCode _ _ _ _, _ | revoke _, _ | revokeById _, _ | isRevoked _, _ | verifyToken _ _, _ | closeCache, _ => False

/-- A call of the service ends well over a closed cache only if it makes do without it. -/
theorem action_observes_refusing (c : ServiceCall) : Observes refusing c.action c.MakesDo := by
  cases c with
  | recordAttempt space ids window => exact Refused.record _
  | recordAttemptAt space ids window second => exact Refused.recordAt _ _
  | countAttempts space ids window => exact Observes.lift (Limiter.count_follows_refusing _)
  | guardAttempts space ids window limit => exact Limiter.guard_observes refusing_opens trivial _
  | clearAttempts space ids window => exact Refused.clear _
  | issueCode settings medium credential => exact Refused.issue _ _ _
  | verifyCode settings medium credential code => exact Refused.verifyCode _ _ _ _
  | revoke record => exact Refused.revoke record
  | revokeById id => exact Refused.revokeById id
  | isRevoked id => exact Refused.isRevoked id
  | loadRevocations => exact Refused.load
  | verifyToken token allowed => exact Refused.verifyToken token allowed
  | saveRecord record => exact (Revocation.store_observes (P := refusing) trivial).mono fun _ _ => trivial
  | closeCache => exact (Refused.uncounted .close).liftCache

end ServiceCall

/-! ## From then on -/

namespace Service

variable {s : Service}

/-- Over a closed engine an action is answered as it is reckoned. -/
theorem Closed.tells (h : s.Closed) (r : Request) (x : r.Answer) (hx : (s.answer r).1 = .returned x) :
    refusing.tells r x := by
  cases r with
  | engine c =>
    obtain ⟨e, he, -⟩ := h.callEngine c
    exact ⟨e, Outcome.returned.inj (hx.symm.trans he)⟩
  | _ => trivial

theorem Closed.run_makesDo (h : s.Closed) {c : ServiceCall} {a : c.Reply}
    (hrun : (s.run c.action.run).1 = .returned (.ok a)) : c.MakesDo a := by
  refine (Action.run_follows (I := Closed) (fun r s hs _ => ?_) c.action_observes_refusing h).2 _ hrun a rfl
  exact ⟨hs.answer r, fun x hx => hs.tells r x hx⟩

theorem Closed.run_count (h : s.Closed) (l : Limiter) : (s.run l.count).1 = .returned 0 := by
  obtain ⟨e, he, -⟩ := h.callEngine (.keys l.attemptStem)
  have hscan : (s.run l.attempts.run).1 = .returned (.error e) := by
    unfold Limiter.attempts Cache.keys
    rw [run_counted, show s.callEngine (.keys l.attemptStem) = (_, _) from Prod.ext he rfl]
  unfold Limiter.count
  rw [run_andThen, show s.run l.attempts.run = (_, _) from Prod.ext hscan rfl]
  rfl

end Service

namespace Interleaving

variable {ι : Type} [DecidableEq ι] {β : ι → Type} {y : Interleaving β}

/-- A closed service stays closed, whatever callers do at the same time and whatever happens to it. -/
theorem closed_apply (h : y.service.Closed) (t : Turn ι) : (y.apply t).service.Closed := by
  cases t with
  | other e => exact h.apply e
  | step i =>
    have hsteps := y.steps_apply i
    generalize y.apply (.step i) = y' at hsteps ⊢
    cases hsteps with
    | ended => exact h
    | answered r next x hrest hanswer => exact h.answer r
    | abandoned r next hrest hanswer => exact h.answer r

/-- An action that has not begun keeps to what it reckons with over a closed engine. -/
theorem follows_after {i : ι} {Q : β i → Prop} (h : y.service.Closed) (hi : (y.rest i).Follows refusing Q)
    (turns : List (Turn ι)) : (y.after turns).service.Closed ∧ ((y.after turns).rest i).Follows refusing Q := by
  refine after_keeps (I := fun y => y.service.Closed ∧ (y.rest i).Follows refusing Q) (T := fun _ => True)
    (fun y t hy _ => ⟨closed_apply hy.1 t, ?_⟩) (fun _ _ => trivial) ⟨h, hi⟩
  exact follows_apply hy.2 (fun r x _ hx => hy.1.tells r x hx) (fun _ _ _ => trivial) t

end Interleaving

/-- Closing is final. An engine that was closed refuses every call, whatever run comes in between, and so does a
connection to any server. Once a service has closed its cache or has stopped, its engine fails every call, however
callers go on with what they have under way and whatever happens to the service: a call that is made from then on, at
once or between the requests of others, ends well only if it makes do without the cache, and a limiter counts no
attempts. -/
theorem closing_is_final {s s' : Service}
    (hclose : s.run Cache.close.run = (.returned (.ok ()), s') ∨ s.stop = (.returned (.ok ()), s')) :
    (∀ (clocks : Clocks) (e : Engine), Backend.engine.Shut (e.perform clocks .close).2) ∧
    (∀ {σ : Type} (S : Server σ) (clocks : Clocks) (r : Session σ),
      S.backend.Shut (S.backend.perform clocks r .close).2) ∧
    ∀ {ι : Type} [DecidableEq ι] (calls : ι → ServiceCall)
      (y : Interleaving fun i => Except ServiceError (calls i).Reply) (turns : List (Turn ι)), y.service = s' →
      let z := y.after turns
      (∀ c, ∃ e, (z.service.callEngine c).1 = .returned (.error e) ∧
        (z.service.engineFaults.next c.method = none → e = .engineClosed)) ∧
      (∀ i a, y.rest i = (calls i).action.run → z.rest i = .done (.ok a) → (calls i).MakesDo a) ∧
      (∀ (c : ServiceCall) a, (z.service.run c.action.run).1 = .returned (.ok a) → c.MakesDo a) ∧
      ∀ l : Limiter, (z.service.run l.count).1 = .returned 0 := by
  have hclosed : s'.Closed := hclose.elim Service.closed_of_close Service.closed_of_stop
  refine ⟨Engine.shut_of_close, Server.shut_of_close, ?_⟩
  intro ι _ calls y turns hy z
  subst hy
  have hz : z.service.Closed :=
    Interleaving.after_keeps (I := fun y => y.service.Closed) (T := fun _ => True)
      (fun y t h _ => Interleaving.closed_apply h t) (fun _ _ => trivial) hclosed
  refine ⟨hz.callEngine, fun i a hrest hdone => ?_, fun c a => hz.run_makesDo, hz.run_count⟩
  have hbegun : (y.rest i).Follows refusing fun r => ∀ a, r = .ok a → (calls i).MakesDo a := by
    rw [hrest]
    exact (calls i).action_observes_refusing
  have hended := (Interleaving.follows_after hclosed hbegun turns).2
  change (z.rest i).Follows _ _ at hended
  rw [hdone] at hended
  exact hended a rfl

/-- A service over an engine in memory with a code that can be used and an attempt that counts. -/
def sampleCoded : Service :=
  let code : EngineCall := .put (Keys.code "email" "a@b.c" "123456") (Json.encode true) none
  let attempt : EngineCall := .put (Keys.attempt (Keys.limiterStem "otp" ["email", "a@b.c"]) 1700000000) [] none
  Service.new ⟨1700000000000000000, 7⟩ (.memory (((Memory.start 7 none).perform 7 code).2.perform 7 attempt).2) .empty
    fun _ => 0

/-- Until the service stops the code is good, and there is an attempt. Of two callers who come afterwards, one does not
get through with the code, and the other counts no attempt, like a third who asks while the two are at work. -/
theorem code_refused_after_stop :
    let calls : Bool → ServiceCall
      | true => .verifyCode {} "email" "a@b.c" "123456"
      | false => .countAttempts "otp" ["email", "a@b.c"] (Span.ofSeconds 900)
    let y := Interleaving.start sampleCoded.stop.2 fun i => (calls i).action.run
    let z := y.after [.step true, .step false, .other (.call (.revokeById "admin_access_tokens:1")), .step false,
      .step true]
    let l := Limiter.of "otp" ["email", "a@b.c"] (Span.ofSeconds 900)
    (sampleCoded.run (OneTimeCode.verify {} "email" "a@b.c" "123456").run).1 = .returned (.ok true) ∧
      (sampleCoded.run l.count).1 = .returned 1 ∧ sampleCoded.stop.1 = .returned (.ok ()) ∧
      z.rest true ≠ .done (.ok true) ∧ z.rest false ≠ .done (.ok (1 : Nat)) ∧
      (z.service.run l.count).1 = .returned 0 := by
  intro calls y z l
  have hstop : sampleCoded.stop.1 = .returned (.ok ()) := by rfl
  obtain ⟨-, hrest, -, hcount⟩ := (closing_is_final (.inr (Prod.ext hstop rfl))).2.2 calls y
    [.step true, .step false, .other (.call (.revokeById "admin_access_tokens:1")), .step false, .step true] rfl
  refine ⟨by decide +kernel, by decide +kernel, hstop, fun hdone => ?_, fun hone => ?_, hcount l⟩
  · exact hrest true true rfl hdone
  · exact Nat.one_ne_zero (hrest false (1 : Nat) rfl hone)

end Gatehouse
