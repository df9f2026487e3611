import Gatehouse.Proofs.Service.Events

/-!
# Services in which nothing fails

Over an open engine in memory, and with no call planned to fail, every call of the engine and of the store is made, so
what an operation does can be said by an equation.
-/

namespace Gatehouse

namespace FaultPlan

variable {μ ε : Type}

@[simp]
theorem next_empty (method : μ) : (empty : FaultPlan μ ε).next method = none := rfl

@[simp]
theorem advance_empty [DecidableEq μ] (method : μ) : (empty : FaultPlan μ ε).advance method = empty :=
  congrArg FaultPlan.mk (funext fun method' => by split <;> rfl)

end FaultPlan

/-- An event that plans no failure. -/
def ServiceEvent.IsFaultless : ServiceEvent → Prop
  | failEngine _ _ | failStore _ _ => False
  | _ => True

namespace Service

/-- A service over an open engine in memory, none of whose calls is planned to fail. -/
structure Calm (s : Service) (m : Memory) : Prop where
  engine : s.engine = .memory m
  isOpen : m.closed = false
  engineFaults : s.engineFaults = .empty
  storeFaults : s.storeFaults = .empty

variable {α : Type} {s : Service} {m : Memory}

/-- No call is planned to fail after a request, if none was before. -/
theorem answer_faults (hengine : s.engineFaults = .empty) (hstore : s.storeFaults = .empty) (r : Request) :
    (s.answer r).2.engineFaults = .empty ∧ (s.answer r).2.storeFaults = .empty := by
  cases r with
  | engine c =>
    obtain ⟨hadvance, hsame⟩ := s.callEngine_faults c
    rw [hengine, FaultPlan.advance_empty] at hadvance
    exact ⟨hadvance, hsame.trans hstore⟩
  | store c =>
    obtain ⟨hadvance, hsame⟩ := s.callStore_faults c
    rw [hstore, FaultPlan.advance_empty] at hadvance
    exact ⟨hsame.trans hengine, hadvance⟩
  | clock => exact ⟨hengine, hstore⟩
  | draw limit count => exact ⟨hengine, hstore⟩
  | record e => exact ⟨hengine, hstore⟩

/-- No call is planned to fail, neither of the engine nor of the store. -/
def Faultless (s : Service) : Prop := s.engineFaults = .empty ∧ s.storeFaults = .empty

theorem Calm.faultless (h : s.Calm m) : s.Faultless := ⟨h.engineFaults, h.storeFaults⟩

theorem Faultless.step (h : s.Faultless) (x : Action α) : (s.step x).2.Faultless := by
  cases x with
  | done a => exact h
  | abandon => exact h
  | ask r next =>
    have hafter := answer_faults h.1 h.2 r
    simp only [Service.step, Action.step]
    generalize s.answer r = a at hafter ⊢
    obtain ⟨o, s₁⟩ := a
    cases o <;> exact hafter

theorem Faultless.apply {e : ServiceEvent} (h : s.Faultless) (he : e.IsFaultless) : (s.apply e).Faultless := by
  cases e with
  | call c =>
    exact run_preserves (I := Faultless) (fun r _ hs => answer_faults hs.1 hs.2 r) c.action.run h
  | failEngine method fate => exact he.elim
  | failStore method fate => exact he.elim
  | _ => exact h

namespace Calm

/-- Every call of the engine is made. -/
theorem callEngine_eq (h : s.Calm m) (c : EngineCall) :
    s.callEngine c =
      ((m.respond s.clocks.monotonic c).1, { s with engine := .memory (m.respond s.clocks.monotonic c).2 }) := by
  rw [← Memory.perform_eq_respond h.isOpen]
  unfold Service.callEngine
  rw [h.engineFaults, FaultPlan.next_empty, FaultPlan.advance_empty, h.engine, ← h.engineFaults]
  rfl

/-- Every call of the store is made. -/
theorem callStore_eq (h : s.Calm m) (c : StoreCall) :
    s.callStore c = (.ok (s.store.perform c).1, { s with store := (s.store.perform c).2 }) := by
  unfold Service.callStore
  rw [h.storeFaults, FaultPlan.next_empty, FaultPlan.advance_empty, ← h.storeFaults]

/-- An action plans no failure. -/
theorem run_faults (h : s.Calm m) (x : Action α) :
    (s.run x).2.engineFaults = .empty ∧ (s.run x).2.storeFaults = .empty :=
  run_preserves (I := fun s => s.engineFaults = .empty ∧ s.storeFaults = .empty)
    (fun r _ hs => answer_faults hs.1 hs.2 r) x ⟨h.engineFaults, h.storeFaults⟩

/-- An action that leaves the engine open leaves the service calm. -/
theorem run (h : s.Calm m) (x : Action α) {m' : Memory} (hm' : (s.run x).2.engine = .memory m')
    (hopen : m'.closed = false) : (s.run x).2.Calm m' :=
  ⟨hm', hopen, (h.run_faults x).1, (h.run_faults x).2⟩

/-- What moves the clocks or removes expired entries leaves the service calm. -/
theorem apply {e : ServiceEvent} (h : s.Calm m) (he : e.IsFaultless) (hcall : ∀ c, e ≠ .call c) :
    ∃ m', (s.apply e).Calm m' ∧ s.clocks.monotonic ≤ (s.apply e).clocks.monotonic ∧
      (m' = m ∨ m' = m.prune (s.apply e).clocks.monotonic ∨ m' = m.tick (s.apply e).clocks.monotonic) := by
  have hadvance (d : Span) : (s.advance d).Calm (m.tick (s.clocks.monotonic + d.nanos)) :=
    ⟨engine_advance h.engine d, (m.closed_tick _).trans h.isOpen, h.engineFaults, h.storeFaults⟩
  cases e with
  | call c => exact absurd rfl (hcall c)
  | failEngine method fate => exact he.elim
  | failStore method fate => exact he.elim
  | prune =>
    exact ⟨_, ⟨engine_prune h.engine, h.isOpen, h.engineFaults, h.storeFaults⟩, Nat.le_refl _, .inr (.inl rfl)⟩
  | advance d => exact ⟨_, hadvance d, Nat.le_add_right _ _, .inr (.inr rfl)⟩
  | shiftWall nanos =>
    exact ⟨m, ⟨h.engine, h.isOpen, h.engineFaults, h.storeFaults⟩, Nat.le_refl _, .inl rfl⟩
  | advanceMonotonic d =>
    have h' := hadvance d
    exact ⟨_, ⟨h'.engine, h'.isOpen, h'.engineFaults, h'.storeFaults⟩, Nat.le_add_right _ _, .inr (.inr rfl)⟩

/-! ## Operations -/

/-- A value is put, unless there is no deadline for it. -/
theorem run_put [Json.ToJson α] (h : s.Calm m) (key : String) (value : α) (expiration : Option Span) :
    ∃ o s', s.run (CacheAction.lift (Cache.put key value expiration)).run = (o, s') ∧ s'.clocks = s.clocks ∧
      (o = .returned (.ok ()) ∧
          s'.Calm
            { m with
              entries := m.entries.insert key
                ⟨Json.encode value, (Cache.lifetime expiration).map fun d => s.clocks.monotonic + d.nanos⟩ } ∨
        o = .abandoned ∧ s'.Calm m) := by
  have hput : (Cache.put key value expiration) =
      Cache.counted .put (.put key (Json.encode value) (Cache.lifetime expiration)) := rfl
  rw [hput, run_liftCache, run_counted, h.callEngine_eq]
  by_cases hdeadline : ∀ d, Cache.lifetime expiration = some d → (Memory.deadline? s.clocks.monotonic d).isSome = true
  · rw [Memory.respond_put hdeadline]
    exact ⟨_, _, rfl, rfl, .inl ⟨rfl, rfl, h.isOpen, h.engineFaults, h.storeFaults⟩⟩
  · rw [Memory.respond_put_of_overflow hdeadline]
    exact ⟨_, _, rfl, rfl, .inr ⟨rfl, rfl, h.isOpen, h.engineFaults, h.storeFaults⟩⟩

theorem run_store (h : s.Calm m) (c : StoreCall) :
    s.run (Revocation.store c).run =
      (.returned (.ok (s.store.perform c).1), { s with store := (s.store.perform c).2 }) := by
  have hrun : s.run (Revocation.store c).run = s.answer (.store c) := run_request _
  rw [hrun, Service.answer, h.callStore_eq]

end Calm

end Service

end Gatehouse
