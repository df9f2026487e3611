import Gatehouse.Proofs.Service.Run

/-!
# Runs of the service

What can happen to a service: calls of its limiters, codes and tokens, sweeps of the engine in memory, calls of the
engine and of the store that are made to fail, and clocks that move. A run is a list of such events, in any order.
-/

namespace Gatehouse

/-- What callers ask of the service. -/
inductive ServiceCall where
  | recordAttempt (space : String) (ids : List String) (window : Span)
  | recordAttemptAt (space : String) (ids : List String) (window : Span) (second : Int64)
  | countAttempts (space : String) (ids : List String) (window : Span)
  | guardAttempts (space : String) (ids : List String) (window : Span) (limit : Nat)
  | clearAttempts (space : String) (ids : List String) (window : Span)
  | issueCode (settings : CodeSettings) (medium credential : String)
  | verifyCode (settings : CodeSettings) (medium credential code : String)
  | revoke (record : TokenRecord)
  | revokeById (id : String)
  | isRevoked (id : String)
  | loadRevocations
  | verifyToken (token : AccessToken) (allowed : List AccountType)
  | saveRecord (record : TokenRecord)
  | closeCache

namespace ServiceCall

/-- What a call ends with when it succeeds. -/
abbrev Reply : ServiceCall → Type
  | recordAttempt _ _ _ => Unit
  | recordAttemptAt _ _ _ _ => Unit
  | countAttempts _ _ _ => Nat
  | guardAttempts _ _ _ _ => Unit
  | clearAttempts _ _ _ => Unit
  | issueCode _ _ _ => String
  | verifyCode _ _ _ _ => Bool
  | revoke _ => TokenRecord
  | revokeById _ => TokenRecord
  | isRevoked _ => Bool
  | loadRevocations => Nat
  | verifyToken _ _ => AccountType
  | saveRecord _ => Unit
  | closeCache => Unit

/-- What the service does for a call. -/
def action : (c : ServiceCall) → ServiceAction c.Reply
  | recordAttempt space ids window => (Limiter.of space ids window).record
  | recordAttemptAt space ids window second => (Limiter.of space ids window).recordAt second
  | countAttempts space ids window => liftM (Limiter.of space ids window).count
  | guardAttempts space ids window limit => (Limiter.of space ids window).guard limit
  | clearAttempts space ids window => (Limiter.of space ids window).clear
  | issueCode settings medium credential => OneTimeCode.issue settings medium credential
  | verifyCode settings medium credential code => OneTimeCode.verify settings medium credential code
  | revoke record => Revocation.revoke record
  | revokeById id => Revocation.revokeById id
  | isRevoked id => Revocation.isRevoked id
  | loadRevocations => Revocation.load
  | verifyToken token allowed => Authenticator.verify token allowed
  | saveRecord record => Revocation.store (.save record)
  | closeCache => CacheAction.lift Cache.close

end ServiceCall

/-- Something that happens to a service. -/
inductive ServiceEvent where
  | call (c : ServiceCall)
  /-- The expired entries of the engine in memory are removed. -/
  | prune
  /-- A coming call of the engine is made to fail, or to be made. -/
  | failEngine (method : Method) (fate : Option CacheError)
  /-- A coming call of the store is made to fail, or to be made. -/
  | failStore (method : StoreMethod) (fate : Option ServiceError)
  /-- Both clocks move forward. -/
  | advance (d : Span)
  /-- The wall clock alone moves, forward or back. -/
  | shiftWall (nanos : Int)
  /-- The forward clock alone moves. -/
  | advanceMonotonic (d : Span)

/-- The service after an event. -/
def Service.apply (s : Service) : ServiceEvent → Service
  | .call c => (s.run c.action.run).2
  | .prune => { s with engine := s.engine.prune s.clocks }
  | .failEngine method fate => { s with engineFaults := s.engineFaults.add method fate }
  | .failStore method fate => { s with storeFaults := s.storeFaults.add method fate }
  | .advance d => s.advance d
  | .shiftWall nanos => s.shiftWall nanos
  | .advanceMonotonic d => (s.advance d).shiftWall (-d.nanos)

/-- The moments of a run: the service before it and after each of its events. -/
def Service.moments (s : Service) : List ServiceEvent → List Service
  | [] => [s]
  | e :: rest => s :: (s.apply e).moments rest

/-- The service after a run. -/
def Service.after (s : Service) (events : List ServiceEvent) : Service := events.foldl Service.apply s

theorem Service.self_mem_moments (s : Service) (events : List ServiceEvent) : s ∈ s.moments events := by
  cases events <;> exact List.mem_cons_self

theorem Service.after_mem_moments (s : Service) (events : List ServiceEvent) : s.after events ∈ s.moments events := by
  induction events generalizing s with
  | nil => exact List.mem_singleton.mpr rfl
  | cons e rest ih => exact List.mem_cons_of_mem _ (ih (s.apply e))

/-- What holds between any two moments of a run holds between every moment and the last. -/
theorem Service.rel_after {R : Service → Service → Prop} (hrefl : ∀ x, R x x) {s : Service}
    {events : List ServiceEvent} (h : (s.moments events).Pairwise R) (x : Service) (hx : x ∈ s.moments events) :
    R x (s.after events) := by
  induction events generalizing s with
  | nil =>
    obtain rfl := List.mem_singleton.mp hx
    exact hrefl x
  | cons e rest ih =>
    have hcons := List.pairwise_cons.mp h
    rcases List.mem_cons.mp hx with rfl | hx
    · exact hcons.1 _ (Service.after_mem_moments _ rest)
    · exact ih hcons.2 hx

/-! ## Services over an engine in memory -/

/-- A service over an engine in memory. -/
def Service.InMemory (s : Service) : Prop := ∃ m, s.engine = .memory m

namespace Service

variable {s : Service} {m : Memory}

theorem engine_prune (hm : s.engine = .memory m) :
    (s.apply .prune).engine = .memory (m.prune s.clocks.monotonic) := by
  unfold Service.apply Engine.prune
  rw [hm]

theorem engine_advance (hm : s.engine = .memory m) (d : Span) :
    (s.advance d).engine = .memory (m.tick (s.clocks.monotonic + d.nanos)) := by
  unfold Service.advance
  rw [hm]
  rfl

theorem InMemory.answer (h : s.InMemory) (r : Request) : (s.answer r).2.InMemory := by
  obtain ⟨m, hm⟩ := h
  cases r with
  | engine c =>
    change ∃ m', (s.callEngine c).2.engine = .memory m'
    unfold callEngine
    split
    · exact ⟨m, hm⟩
    · rw [hm]
      exact ⟨_, rfl⟩
  | store c => exact ⟨m, (s.callStore_engine c).trans hm⟩
  | _ => exact ⟨m, hm⟩

theorem InMemory.apply (h : s.InMemory) (e : ServiceEvent) : (s.apply e).InMemory := by
  obtain ⟨m, hm⟩ := h
  cases e with
  | call c => exact run_preserves (I := InMemory) (fun r _ hs => hs.answer r) c.action.run ⟨m, hm⟩
  | prune => exact ⟨_, engine_prune hm⟩
  | failEngine method fate => exact ⟨m, hm⟩
  | failStore method fate => exact ⟨m, hm⟩
  | advance d => exact ⟨_, engine_advance hm d⟩
  | shiftWall nanos => exact ⟨m, hm⟩
  | advanceMonotonic d => exact ⟨_, engine_advance hm d⟩

end Service

end Gatehouse
