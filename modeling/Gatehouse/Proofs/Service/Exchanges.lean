import Gatehouse.Proofs.Service.Run

/-!
# What an action was answered

The exchanges of a run are its requests with their answers, in order. An action is strict when it ends with the first
failure that it is answered: no failure of the engine or of the store is passed over.
-/

namespace Gatehouse

/-- A request with its answer. -/
structure Exchange where
  request : Request
  answer : request.Answer

/-- Why a call of the engine or of the store failed, if it did. -/
def Exchange.failure? : Exchange → Option ServiceError
  | ⟨.engine _, .error e⟩ => some (.cache e)
  | ⟨.store _, .error e⟩ => some e
  | _ => none

variable {σ ε α β : Type}

/-- The requests of a run that were answered, with their answers. -/
def Action.exchanges (answer : Handler σ) : Action α → σ → List Exchange
  | done _, _ => []
  | abandon, _ => []
  | ask r next, s =>
    match answer r s with
    | (.returned x, s) => ⟨r, x⟩ :: (next x).exchanges answer s
    | (.abandoned, _) => []

theorem Action.exchanges_bind (answer : Handler σ) (x : Action α) (f : α → Action β) (s : σ) :
    (x >>= f).exchanges answer s =
      x.exchanges answer s ++
        match x.run answer s with
        | (.returned a, s₁) => (f a).exchanges answer s₁
        | (.abandoned, _) => [] := by
  change (x.bind f).exchanges answer s = _
  induction x generalizing s with
  | done a => rfl
  | abandon => rfl
  | ask r next ih =>
    simp only [Action.bind, exchanges, run]
    cases answer r s with
    | mk o s₁ =>
      cases o with
      | returned y => exact congrArg _ (ih y s₁)
      | abandoned => rfl

namespace Service

variable {s : Service}

/-- The exchanges of an action of the service. -/
def exchanges (s : Service) (x : Action α) : List Exchange := x.exchanges (fun r s => s.answer r) s

theorem exchanges_andThen (x : Action α) (f : α → Action β) :
    s.exchanges (x >>= f) =
      s.exchanges x ++
        match s.run x with
        | (.returned a, s₁) => s₁.exchanges (f a)
        | (.abandoned, _) => [] := by
  unfold exchanges Service.run
  rw [Action.exchanges_bind]
  cases x.run (fun r s => s.answer r) s with
  | mk o s₁ => cases o <;> rfl

/-- The exchanges of an action that can fail, and of what runs after it unless it failed. -/
theorem exchanges_bind (x : ExceptT ε Action α) (f : α → ExceptT ε Action β) :
    s.exchanges (x >>= f).run =
      s.exchanges x.run ++
        match s.run x.run with
        | (.returned (.ok a), s₁) => s₁.exchanges (f a).run
        | _ => [] := by
  rw [ExceptT.run_bind, exchanges_andThen]
  cases s.run x.run with
  | mk o s₁ =>
    cases o with
    | returned r => cases r <;> rfl
    | abandoned => rfl

/-- What a failure of the cache is turned into makes no request. -/
theorem exchanges_liftCache (x : CacheAction α) : s.exchanges (CacheAction.lift x).run = s.exchanges x.run := by
  refine (exchanges_andThen x.run fun r => Action.done (r.mapError ServiceError.cache)).trans ?_
  obtain ⟨o, s₁⟩ := s.run x.run
  cases o <;> exact List.append_nil _

theorem exchanges_uncounted (c : EngineCall) :
    s.exchanges (Cache.uncounted c).run =
      match (s.callEngine c).1 with
      | .returned r => [⟨.engine c, r⟩]
      | .abandoned => [] := by
  change (Action.ask (.engine c) Action.done).exchanges (fun r s => s.answer r) s = _
  simp only [Action.exchanges, Service.answer]
  obtain ⟨o, s₁⟩ := s.callEngine c
  cases o <;> rfl

/-- A counted call of the engine is the call, if it is answered, and the count of how it ended. -/
theorem exchanges_counted (op : Operation) (c : EngineCall) :
    s.exchanges (Cache.counted op c).run =
      match (s.callEngine c).1 with
      | .returned r => [⟨.engine c, r⟩, ⟨.record (.operation op (.ofResult r)), ()⟩]
      | .abandoned => [] := by
  change (Action.ask (.engine c) fun r => Action.ask (.record (.operation op (.ofResult r))) fun _ =>
    Action.done r).exchanges (fun r s => s.answer r) s = _
  simp only [Action.exchanges, Service.answer]
  obtain ⟨o, s₁⟩ := s.callEngine c
  cases o <;> rfl

end Service

/-- An action that ends with the failure of a call, if a call that it makes fails. -/
def Strict (x : ServiceAction α) : Prop :=
  ∀ (s : Service), ∀ e ∈ s.exchanges x.run, ∀ cause, e.failure? = some cause →
    (s.run x.run).1 = .returned (.error cause)

namespace Strict

theorem of_no_exchange {x : ServiceAction α} (h : ∀ s : Service, s.exchanges x.run = []) : Strict x := by
  intro s e he
  rw [h s] at he
  exact absurd he List.not_mem_nil

theorem pure (a : α) : Strict (Pure.pure a : ServiceAction α) := of_no_exchange fun _ => rfl

theorem throw (e : ServiceError) : Strict (MonadExcept.throw e : ServiceAction α) := of_no_exchange fun _ => rfl

theorem bind {x : ServiceAction α} {f : α → ServiceAction β} (hx : Strict x) (hf : ∀ a, Strict (f a)) :
    Strict (x >>= f) := by
  intro s e he cause hcause
  rw [Service.exchanges_bind] at he
  rw [Service.run_bind]
  rcases List.mem_append.mp he with he | he
  · have hrun := hx s e he cause hcause
    split <;> rename_i heq <;> (rw [heq] at hrun; cases hrun)
    rfl
  · split at he
    · rename_i a s₁ heq
      rw [heq]
      exact hf a s₁ e he cause hcause
    · exact absurd he List.not_mem_nil

theorem ofOutcome (o : Outcome α) : Strict (liftM (Action.ofOutcome o) : ServiceAction α) := by
  refine of_no_exchange fun s => ?_
  cases o <;> rfl

theorem clock : Strict (liftM Action.clock : ServiceAction Instant) := by
  intro s e he cause hcause
  obtain rfl := List.mem_singleton.mp he
  cases hcause

theorem record (event : Event) : Strict (liftM (Action.record event) : ServiceAction Unit) := by
  intro s e he cause hcause
  obtain rfl := List.mem_singleton.mp he
  cases hcause

theorem store (c : StoreCall) : Strict (Revocation.store c) := by
  intro s e he cause hcause
  have hrun : s.run (Revocation.store c).run = s.answer (.store c) := Service.run_request (.store c)
  obtain rfl : e = ⟨.store c, (s.callStore c).1⟩ := List.mem_singleton.mp he
  rw [hrun]
  change Outcome.returned (s.callStore c).1 = _
  cases hr : (s.callStore c).1 with
  | ok a =>
    rw [hr] at hcause
    cases hcause
  | error cause' =>
    rw [hr] at hcause
    cases hcause
    rfl

/-- A counted call of the engine that fails fails the service. -/
theorem counted (op : Operation) (c : EngineCall) : Strict (CacheAction.lift (Cache.counted op c)) := by
  intro s e he cause hcause
  rw [Service.exchanges_liftCache, Service.exchanges_counted] at he
  rw [Service.run_liftCache, Service.run_counted]
  cases hcall : s.callEngine c with
  | mk o s₁ =>
    rw [hcall] at he
    cases o with
    | abandoned => exact absurd he List.not_mem_nil
    | returned r =>
      rcases List.mem_cons.mp he with rfl | he
      · cases r with
        | ok a => cases hcause
        | error e =>
          cases hcause
          rfl
      · obtain rfl := List.mem_singleton.mp he
        cases hcause

theorem forM {f : α → ServiceAction PUnit} (l : List α) (h : ∀ a ∈ l, Strict (f a)) : Strict (l.forM f) := by
  induction l with
  | nil => exact pure PUnit.unit
  | cons a l ih =>
    change Strict (f a >>= fun _ => l.forM f)
    exact (h a List.mem_cons_self).bind fun _ => ih fun b hb => h b (List.mem_cons_of_mem _ hb)

theorem mapM {f : α → ServiceAction β} (l : List α) (h : ∀ a ∈ l, Strict (f a)) : Strict (l.mapM f) := by
  induction l with
  | nil => exact pure []
  | cons a l ih =>
    rw [List.mapM_cons]
    refine (h a List.mem_cons_self).bind ?_
    intro _
    exact (ih fun b hb => h b (List.mem_cons_of_mem _ hb)).bind fun _ => pure _

end Strict

end Gatehouse
