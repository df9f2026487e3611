import Gatehouse.Proofs.Cache.Memory
import Gatehouse.Proofs.Service.Discipline

/-!
# Running actions of the service

An action of the service that ends with a result ran all of its parts, each to a result; `run_bind_ok` takes such a run
apart. Over the engine in memory, an action that keeps to a discipline keeps whatever the admitted calls of the engine
keep (`run_keeps`).
-/

namespace Gatehouse

namespace Service

variable {ε α β : Type} {s s' : Service}

/-- Running a single request is answering it. -/
theorem run_request (r : Request) : s.run (Action.request r) = s.answer r := by
  simp only [Service.run, Action.request, Action.run]
  split
  · rename_i heq
    exact heq.symm
  · rename_i heq
    exact heq.symm

/-! ## The parts of an action -/

theorem run_andThen (x : Action α) (f : α → Action β) :
    s.run (x >>= f) =
      match s.run x with
      | (.returned a, s₁) => s₁.run (f a)
      | (.abandoned, s₁) => (.abandoned, s₁) := by
  unfold Service.run
  rw [Action.run_bind]
  cases x.run (fun r s => s.answer r) s with
  | mk o s₁ => cases o <;> rfl

/-- What runs after an action that can fail starts where that ended, unless it failed or was abandoned. -/
theorem run_bind (x : ExceptT ε Action α) (f : α → ExceptT ε Action β) :
    s.run (x >>= f).run =
      match s.run x.run with
      | (.returned (.ok a), s₁) => s₁.run (f a).run
      | (.returned (.error e), s₁) => (.returned (.error e), s₁)
      | (.abandoned, s₁) => (.abandoned, s₁) := by
  rw [ExceptT.run_bind, run_andThen]
  obtain ⟨o, s₁⟩ := s.run x.run
  cases o with
  | returned r => cases r <;> rfl
  | abandoned => rfl

theorem run_bind_of_ok {x : ExceptT ε Action α} {f : α → ExceptT ε Action β} {a : α}
    (h : s.run x.run = (.returned (.ok a), s')) : s.run (x >>= f).run = s'.run (f a).run := by
  rw [run_bind, h]

/-- An action that can fail ends where its first part ended without a result. -/
theorem run_bind_of_not_ok {s'' : Service} {x : ExceptT ε Action α} {f : α → ExceptT ε Action β}
    {o : Outcome (Except ε α)} {o' : Outcome (Except ε β)} (h : s.run x.run = (o, s')) (ho : ∀ a, o ≠ .returned (.ok a))
    (hrun : s.run (x >>= f).run = (o', s'')) : s'' = s' := by
  rw [run_bind, h] at hrun
  rcases o with ⟨_ | a⟩ | _
  · exact (Prod.mk.inj hrun).2.symm
  · exact absurd rfl (ho a)
  · exact (Prod.mk.inj hrun).2.symm

/-- A run that ends with a result ran the first part to a result, and the second part from there. -/
theorem run_bind_ok {x : ExceptT ε Action α} {f : α → ExceptT ε Action β} {b : β}
    (h : s.run (x >>= f).run = (.returned (.ok b), s')) :
    ∃ a s₁, s.run x.run = (.returned (.ok a), s₁) ∧ s₁.run (f a).run = (.returned (.ok b), s') := by
  rw [run_bind] at h
  split at h
  · rename_i a s₁ heq
    exact ⟨a, s₁, heq, h⟩
  · cases h
  · cases h

/-- An action that cannot fail, within one that can. -/
theorem run_lift (x : Action α) :
    s.run (liftM x : ExceptT ε Action α).run = ((s.run x).1.map .ok, (s.run x).2) := by
  refine (run_andThen x fun a => Action.done (Except.ok a)).trans ?_
  obtain ⟨o, s₁⟩ := s.run x
  cases o <;> rfl

/-- A run of an action that cannot fail, within one that can. -/
theorem run_lift_ok {x : Action α} {a : α} (h : s.run (liftM x : ExceptT ε Action α).run = (.returned (.ok a), s')) :
    s.run x = (.returned a, s') := by
  rw [run_lift] at h
  revert h
  obtain ⟨o, s₁⟩ := s.run x
  cases o with
  | returned b =>
    intro h
    cases h
    rfl
  | abandoned => exact fun h => nomatch h

/-- A failure of the cache fails the service, with it as the cause. -/
theorem run_liftCache (x : CacheAction α) :
    s.run (CacheAction.lift x).run =
      ((s.run x.run).1.map fun r => r.mapError ServiceError.cache, (s.run x.run).2) := by
  refine (run_andThen x.run fun r => Action.done (r.mapError ServiceError.cache)).trans ?_
  obtain ⟨o, s₁⟩ := s.run x.run
  cases o <;> rfl

/-- A run of an action on the cache, within one of the service. -/
theorem run_liftCache_ok {x : CacheAction α} {a : α} (h : s.run (CacheAction.lift x).run = (.returned (.ok a), s')) :
    s.run x.run = (.returned (.ok a), s') := by
  rw [run_liftCache] at h
  revert h
  obtain ⟨o, s₁⟩ := s.run x.run
  cases o with
  | returned r =>
    intro h
    cases r with
    | ok b =>
      cases h
      rfl
    | error e => cases h
  | abandoned => exact fun h => nomatch h

/-- Running an action that has been worked out before makes no request. -/
theorem run_ofOutcome_ok {o : Outcome α} {a : α} (h : s.run (Action.ofOutcome o) = (.returned a, s')) :
    o = .returned a ∧ s' = s := by
  cases o with
  | returned b =>
    cases h
    exact ⟨rfl, rfl⟩
  | abandoned => cases h

/-- A counted call of the engine is the call, but for the counts. -/
theorem run_counted (op : Operation) (c : EngineCall) :
    s.run (Cache.counted op c).run =
      match s.callEngine c with
      | (.returned r, s₁) => (.returned r, { s₁ with metrics := s₁.metrics.record (.operation op (.ofResult r)) })
      | (.abandoned, s₁) => (.abandoned, s₁) := by
  have hcall : s.run (Action.engine c) = s.callEngine c := run_request (.engine c)
  refine (run_andThen (Action.engine c) fun r =>
    Action.record (.operation op (.ofResult r)) >>= fun _ => pure r).trans ?_
  rw [hcall]
  obtain ⟨o, s₁⟩ := s.callEngine c
  cases o <;> rfl

theorem run_counted_ok {op : Operation} {c : EngineCall} {a : c.Reply}
    (h : s.run (Cache.counted op c).run = (.returned (.ok a), s')) :
    (s.callEngine c).1 = .returned (.ok a) ∧
      s' = { (s.callEngine c).2 with metrics := (s.callEngine c).2.metrics.record (.operation op .ok) } := by
  rw [run_counted] at h
  split at h
  · rename_i r s₁ heq
    cases h
    rw [heq]
    exact ⟨rfl, rfl⟩
  · cases h

/-- A run keeps what the answer to every request keeps. -/
theorem run_preserves {I : Service → Prop} (hI : ∀ r s, I s → I (s.answer r).2) (x : Action α) (hs : I s) :
    I (s.run x).2 := by
  unfold Service.run
  induction x generalizing s with
  | done a => exact hs
  | abandon => exact hs
  | ask r next ih =>
    have hanswer := hI r s hs
    simp only [Action.run]
    split
    · rename_i y s₁ heq
      rw [heq] at hanswer
      exact ih y hanswer
    · rename_i s₁ heq
      rw [heq] at hanswer
      exact hanswer

/-! ## Calls of the engine and of the store -/

theorem callEngine_clocks (s : Service) (c : EngineCall) : (s.callEngine c).2.clocks = s.clocks := by
  unfold Service.callEngine
  split <;> rfl

theorem callEngine_store (s : Service) (c : EngineCall) : (s.callEngine c).2.store = s.store := by
  unfold Service.callEngine
  split <;> rfl

/-- A call of the engine uses up its fate in the plan. -/
theorem callEngine_faults (s : Service) (c : EngineCall) :
    (s.callEngine c).2.engineFaults = s.engineFaults.advance c.method ∧
      (s.callEngine c).2.storeFaults = s.storeFaults := by
  unfold Service.callEngine
  split <;> exact ⟨rfl, rfl⟩

theorem callStore_clocks (s : Service) (c : StoreCall) : (s.callStore c).2.clocks = s.clocks := by
  unfold Service.callStore
  split <;> rfl

theorem callStore_engine (s : Service) (c : StoreCall) : (s.callStore c).2.engine = s.engine := by
  unfold Service.callStore
  split <;> rfl

/-- A call of the store uses up its fate in the plan. -/
theorem callStore_faults (s : Service) (c : StoreCall) :
    (s.callStore c).2.storeFaults = s.storeFaults.advance c.method ∧
      (s.callStore c).2.engineFaults = s.engineFaults := by
  unfold Service.callStore
  split <;> exact ⟨rfl, rfl⟩

theorem answer_clocks (s : Service) (r : Request) : (s.answer r).2.clocks = s.clocks := by
  cases r with
  | engine c => exact s.callEngine_clocks c
  | store c => exact s.callStore_clocks c
  | _ => rfl

theorem run_clocks (s : Service) (x : Action α) : (s.run x).2.clocks = s.clocks :=
  run_preserves (I := fun s' => s'.clocks = s.clocks) (fun r s' hs => (s'.answer_clocks r).trans hs) x rfl

/-- An action plans no failure for a method whose coming calls are all made. -/
theorem run_fates {method : Method} (h : s.engineFaults.fates method = []) (x : Action α) :
    (s.run x).2.engineFaults.fates method = [] := by
  refine run_preserves (I := fun s => s.engineFaults.fates method = []) (fun request s hs => ?_) x h
  cases request with
  | engine c =>
    change (s.callEngine c).2.engineFaults.fates method = []
    rw [(s.callEngine_faults c).1]
    unfold FaultPlan.advance
    simp only [hs, List.tail_nil, ite_self]
  | store c =>
    change (s.callStore c).2.engineFaults.fates method = []
    rw [(s.callStore_faults c).2, hs]
  | clock => exact hs
  | draw limit count => exact hs
  | record e => exact hs

/-- A call of the engine in memory that succeeds was made, and not failed by the plan. -/
theorem callEngine_memory_ok {m : Memory} (hm : s.engine = .memory m) {c : EngineCall} {a : c.Reply}
    (h : (s.callEngine c).1 = .returned (.ok a)) :
    (m.perform s.clocks.monotonic c).1 = .returned (.ok a) ∧
      (s.callEngine c).2.engine = .memory (m.perform s.clocks.monotonic c).2 := by
  unfold Service.callEngine at h ⊢
  split
  · rename_i e heq
    rw [heq] at h
    cases h
  · rename_i heq
    rw [heq] at h
    rw [hm] at h ⊢
    exact ⟨h, rfl⟩

/-! ## Runs under a discipline -/

/-- A service over the engine in memory at a time, whose engine and records satisfy a condition. -/
structure Satisfies (s : Service) (clocks : Clocks) (J : Memory → Prop) (R : TokenRecord → Prop) : Prop where
  clocks_eq : s.clocks = clocks
  engine : ∃ m, s.engine = .memory m ∧ J m
  records : ∀ e ∈ s.store.records.entries, R e.2

variable {D : Discipline} {J : Memory → Prop} {clocks : Clocks}

/-- The engine in memory lists nothing but keys under the text it is asked for. -/
theorem told_perform (now : Nat) (m : Memory) (c : EngineCall) (x : Except CacheError c.Reply)
    (h : (m.perform now c).1 = .returned x) : Discipline.told c x := by
  cases c with
  | keys stem =>
    cases x with
    | error e => trivial
    | ok l =>
      intro k hk
      unfold Memory.perform at h
      split at h
      · cases h
      · cases h
        obtain ⟨e, he, rfl⟩ := List.mem_map.mp hk
        exact (Bool.and_eq_true_iff.mp (List.mem_filter.mp ((m.listing.perm _).subset he)).2).1
  | _ => trivial

theorem Satisfies.callEngine (hJ : ∀ m c, J m → D.calls c → J (m.perform clocks.monotonic c).2)
    (h : s.Satisfies clocks J D.records) {c : EngineCall} (hc : D.calls c) :
    (s.callEngine c).2.Satisfies clocks J D.records ∧
      ∀ x, (s.callEngine c).1 = .returned x → Discipline.told c x := by
  obtain ⟨m, hm, hJm⟩ := h.engine
  unfold Service.callEngine
  split
  · refine ⟨⟨h.clocks_eq, ⟨m, hm, hJm⟩, h.records⟩, ?_⟩
    intro x hx
    cases hx
    cases c <;> trivial
  · rw [hm, h.clocks_eq]
    exact ⟨⟨rfl, ⟨_, rfl, hJ m c hJm hc⟩, h.records⟩, fun x hx => told_perform _ m c x hx⟩

theorem Satisfies.callStore (h : s.Satisfies clocks J D.records) {c : StoreCall} (hc : D.admits (.store c)) :
    (s.callStore c).2.Satisfies clocks J D.records ∧ D.toldOfRecords c (s.callStore c).1 := by
  have hfound (r : TokenRecord) (id : String) (hr : s.store.records.get? id = some r) : D.records r :=
    h.records _ ((Table.mem_entries_iff _ _ _).mpr hr)
  unfold Service.callStore
  split
  · refine ⟨⟨h.clocks_eq, h.engine, h.records⟩, ?_⟩
    cases c <;> trivial
  · cases c with
    | find id =>
      exact ⟨⟨h.clocks_eq, h.engine, h.records⟩, fun r hr => hfound r id hr⟩
    | save r =>
      refine ⟨⟨h.clocks_eq, h.engine, fun e he => ?_⟩, trivial⟩
      rcases Table.mem_insertEntry he with rfl | he
      · exact hc
      · exact h.records e he
    | revoked kind now =>
      refine ⟨⟨h.clocks_eq, h.engine, h.records⟩, ?_⟩
      intro r hr
      obtain ⟨e, he, rfl⟩ := List.mem_map.mp (List.mem_filter.mp ((s.store.listing.perm _).subset hr)).1
      exact h.records e he

/-- Over the engine in memory, an action that keeps to a discipline keeps whatever the admitted calls keep. -/
theorem run_keeps (hJ : ∀ m c, J m → D.calls c → J (m.perform clocks.monotonic c).2) (hnow : D.now = clocks.instant)
    {x : Action α} {Q : α → Prop} (hx : x.Within D Q) (hs : s.Satisfies clocks J D.records) :
    (s.run x).2.Satisfies clocks J D.records ∧ ∀ a, (s.run x).1 = .returned a → Q a := by
  refine Action.run_within (I := fun s : Service => s.Satisfies clocks J D.records) (fun r s hs hr => ?_) hx hs
  cases r with
  | engine c => exact hs.callEngine hJ hr
  | store c =>
    obtain ⟨hkeep, htold⟩ := hs.callStore hr
    exact ⟨hkeep, fun x hx => Outcome.returned.inj hx ▸ htold⟩
  | clock =>
    refine ⟨hs, ?_⟩
    intro t ht
    rw [← Outcome.returned.inj ht, hs.clocks_eq]
    exact hnow.symm
  | draw limit count => exact ⟨⟨hs.clocks_eq, hs.engine, hs.records⟩, fun _ _ => trivial⟩
  | record e => exact ⟨⟨hs.clocks_eq, hs.engine, hs.records⟩, fun _ _ => trivial⟩

end Service

end Gatehouse
