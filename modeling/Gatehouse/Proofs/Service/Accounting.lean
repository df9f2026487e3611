import Gatehouse.Proofs.Cache.Call
import Gatehouse.Proofs.Revocation.FirstTime
import Gatehouse.Proofs.Service.Exchanges
import Gatehouse.Proofs.Service.Transcript
import Gatehouse.Startup

/-!
# The metrics account for every call

Calls of the engine are counted by the cache, rejections by limiters, revocations and what a load restored where they
come about. What an action counts can be read off its exchanges and off what it ends with: `Action.Accounts` says so,
and it is carried from the requests to the operations. So after any run the counters say how many calls ended in which
way (`metrics_account`).
-/

namespace Gatehouse

/-! ## What is to be counted -/

/-- The operation that a call of the engine is counted under. Reading a lifetime, flushing and closing are not counted.
-/
def Method.operation? : Method → Option Operation
  | .has => some .has
  | .fetch => some .get
  | .put => some .put
  | .delete => some .delete
  | .take => some .take
  | .keys | .entries => some .scan
  | .remaining | .flush | .close => none

namespace Exchange

/-- The operation that an exchange is to be counted under, and as what: a call that failed because the key is absent is
a miss, and any other failure is an error. -/
def counts? : Exchange → Option (Operation × Ending)
  | ⟨.engine c, .ok _⟩ => c.method.operation?.map fun op => (op, .ok)
  | ⟨.engine c, .error .keyNotFound⟩ => c.method.operation?.map fun op => (op, .miss)
  | ⟨.engine c, .error _⟩ => c.method.operation?.map fun op => (op, .error)
  | _ => none

/-- Cache and claim agree on how a call of the engine ended. -/
theorem counts?_engine (c : EngineCall) (r : Except CacheError c.Reply) :
    counts? ⟨.engine c, r⟩ = c.method.operation?.map fun op => (op, .ofResult r) := by
  cases r with
  | ok a => rfl
  | error e => cases e <;> rfl

/-- The event that an exchange counted. -/
def event? : Exchange → Option Event
  | ⟨.record e, _⟩ => some e
  | _ => none

end Exchange

namespace Event

/-- The operation that was counted, and as what. -/
def operation? : Event → Option (Operation × Ending)
  | operation op ending => some (op, ending)
  | _ => none

/-- Whether something other than an operation of the cache was counted. -/
def isNote (e : Event) : Bool := e.operation?.isNone

/-- The number of revocations that were restored. -/
def restored? : Event → Option Nat
  | loaded n => some n
  | _ => none

theorem count_operation (events : List Event) (op : Operation) (ending : Ending) :
    (events.filterMap operation?).count (op, ending) = events.count (.operation op ending) := by
  rw [List.count_filterMap]
  refine List.countP_congr fun e _ => ?_
  cases e <;> simp [operation?]

/-- What was restored is among the notes. -/
theorem restored?_filter (events : List Event) :
    (events.filter isNote).filterMap restored? = events.filterMap restored? := by
  rw [List.filterMap_filter]
  refine congrArg (fun f => events.filterMap f) (funext fun e => ?_)
  cases e <;> rfl

end Event

/-- An action that is rejected is to be noted as a rejection in a name space. -/
def Limiter.rejects {α : Type} (space : String) : Except ServiceError α → List Event
  | .error (.rateLimited _ _) => [.rejection space]
  | _ => []

/-- What a call of the service is to be noted as, other than by its calls of the engine: one that is rejected is a
rejection, in the name space of codes if a code was to be issued; a token that was revoked is a revocation of its kind,
and a load that succeeds shows its count. -/
def ServiceCall.notes : (c : ServiceCall) → Except ServiceError c.Reply → List Event
  | guardAttempts space _ _ _, r => Limiter.rejects space r
  | issueCode _ _ _, r => Limiter.rejects OneTimeCode.space r
  | revoke _, .ok r => [.revocation r.kind]
  | revokeById _, .ok r => [.revocation r.kind]
  | loadRevocations, .ok n => [.loaded n]
  | _, _ => []

/-! ## Counters after events -/

namespace Metrics

variable (m : Metrics) (events : List Event)

theorem operations_foldl (op : Operation) (ending : Ending) :
    (events.foldl record m).operations op ending = m.operations op ending + events.count (.operation op ending) := by
  induction events generalizing m with
  | nil => rfl
  | cons e events ih =>
    rw [List.foldl_cons, ih, List.count_cons]
    cases e with
    | operation op' ending' =>
      by_cases hsame : op = op' ∧ ending = ending'
      · obtain ⟨rfl, rfl⟩ := hsame
        simp [record]
        omega
      · have hne : ¬(op' = op ∧ ending' = ending) := fun ⟨h, h'⟩ => hsame ⟨h.symm, h'.symm⟩
        simp [record, hsame, hne]
    | _ => rfl

theorem rejections_foldl (space : String) :
    ((events.foldl record m).rejections.get? space).getD 0 =
      (m.rejections.get? space).getD 0 + events.count (.rejection space) := by
  induction events generalizing m with
  | nil => rfl
  | cons e events ih =>
    rw [List.foldl_cons, ih, List.count_cons]
    cases e with
    | rejection space' =>
      simp only [record, Table.get?_insert]
      by_cases hsame : space = space'
      · subst hsame
        simp
        omega
      · simp [hsame, Ne.symm hsame]
    | _ => rfl

theorem revocations_foldl (kind : TokenKind) :
    (events.foldl record m).revocations kind = m.revocations kind + events.count (.revocation kind) := by
  induction events generalizing m with
  | nil => rfl
  | cons e events ih =>
    rw [List.foldl_cons, ih, List.count_cons]
    cases e with
    | revocation kind' =>
      by_cases hsame : kind = kind'
      · subst hsame
        simp [record]
        omega
      · simp [record, hsame, Ne.symm hsame]
    | _ => rfl

theorem loaded_foldl : (events.foldl record m).loaded = (events.filterMap Event.restored?).getLast?.or m.loaded := by
  induction events generalizing m with
  | nil => rfl
  | cons e events ih =>
    rw [List.foldl_cons, ih]
    cases e with
    | loaded n =>
      have hcons : (Event.loaded n :: events).filterMap Event.restored? = n :: events.filterMap Event.restored? := rfl
      rw [hcons, List.getLast?_cons]
      cases (events.filterMap Event.restored?).getLast? <;> rfl
    | _ => rfl

end Metrics

variable {ε α β : Type}

theorem Service.callEngine_metrics (s : Service) (c : EngineCall) : (s.callEngine c).2.metrics = s.metrics := by
  unfold Service.callEngine
  split <;> rfl

theorem Service.callStore_metrics (s : Service) (c : StoreCall) : (s.callStore c).2.metrics = s.metrics := by
  unfold Service.callStore
  split <;> rfl

/-- What was counted as an action ran is what is in the counters afterwards. -/
theorem Service.metrics_run (s : Service) (x : Action α) :
    (s.run x).2.metrics = ((s.exchanges x).filterMap Exchange.event?).foldl Metrics.record s.metrics := by
  unfold Service.run Service.exchanges
  induction x generalizing s with
  | done a => rfl
  | abandon => rfl
  | ask r next ih =>
    have hanswer : (s.answer r).2.metrics =
        match r with
        | .record e => s.metrics.record e
        | _ => s.metrics := by
      cases r with
      | engine c => exact s.callEngine_metrics c
      | store c => exact s.callStore_metrics c
      | _ => rfl
    simp only [Action.run, Action.exchanges]
    cases heq : s.answer r with
    | mk o s₁ =>
      rw [heq] at hanswer
      cases o with
      | returned x =>
        simp only [ih]
        cases r <;> (simp only at hanswer; rw [hanswer]; rfl)
      | abandoned =>
        cases r with
        | engine c => exact hanswer
        | _ => cases heq

/-! ## Actions that are accounted for -/

/-- The events that an action which ended in a way is to be noted as; one that is abandoned is not noted. -/
def Outcome.notes (n : α → List Event) : Outcome α → List Event
  | .returned a => n a
  | .abandoned => []

/-- An action counts every call of the engine as it is to be counted, and notes what it is to be noted as when it ends.
-/
structure Action.Accounts (x : Action α) (n : α → List Event) : Prop where
  operations : ∀ s : Service, ((s.exchanges x).filterMap Exchange.event?).filterMap Event.operation? =
    (s.exchanges x).filterMap Exchange.counts?
  notes : ∀ s : Service, ((s.exchanges x).filterMap Exchange.event?).filter Event.isNote = (s.run x).1.notes n

namespace Action.Accounts

variable {n : α → List Event}

theorem done {a : α} (h : n a = []) : (Action.done a).Accounts n := ⟨fun _ => rfl, fun _ => h.symm⟩

theorem abandon : (Action.abandon : Action α).Accounts n := ⟨fun _ => rfl, fun _ => rfl⟩

/-- One action after another, of which the first is noted as nothing, or the second has no more to do. -/
theorem bind {x : Action α} {f : α → Action β} {m : β → List Event} (hx : x.Accounts n)
    (hf : ∀ a, (n a = [] ∧ (f a).Accounts m) ∨ ∃ b, f a = .done b ∧ m b = n a) : (x >>= f).Accounts m := by
  constructor
  · intro s
    rw [Service.exchanges_andThen]
    simp only [List.filterMap_append, hx.operations]
    cases hrun : s.run x with
    | mk o s₁ =>
      cases o with
      | abandoned => rfl
      | returned a =>
        rcases hf a with ⟨-, hfa⟩ | ⟨b, hfa, -⟩
        · rw [← hfa.operations s₁]
        · simp only [hfa]
          rfl
  · intro s
    rw [Service.exchanges_andThen, Service.run_andThen]
    simp only [List.filterMap_append, List.filter_append, hx.notes]
    cases hrun : s.run x with
    | mk o s₁ =>
      cases o with
      | abandoned => rfl
      | returned a =>
        rcases hf a with ⟨hna, hfa⟩ | ⟨b, hfa, hb⟩
        · rw [← hfa.notes s₁]
          simp only [Outcome.notes, hna, List.nil_append]
        · simp only [hfa, Outcome.notes]
          exact (List.append_nil _).trans hb.symm

/-- A request that is neither a call of the engine nor a count. -/
theorem clock : Action.clock.Accounts fun _ => [] := ⟨fun _ => rfl, fun _ => rfl⟩

theorem store (c : StoreCall) : (Action.store c).Accounts fun _ => [] := ⟨fun _ => rfl, fun _ => rfl⟩

theorem draw (limit count : Nat) : (Action.draw limit count).Accounts fun _ => [] := ⟨fun _ => rfl, fun _ => rfl⟩

/-- Counting an event that is no operation of the cache. -/
theorem record {e : Event} (h : e.isNote = true) : (Action.record e).Accounts fun _ => [e] := by
  cases e with
  | operation op ending => cases h
  | _ => exact ⟨fun _ => rfl, fun _ => rfl⟩

/-- A call of the engine that is not to be counted. -/
theorem uncounted {c : EngineCall} (h : c.method.operation? = none) : (Cache.uncounted c).run.Accounts fun _ => [] := by
  have hcounts (r : Except CacheError c.Reply) : Exchange.counts? ⟨.engine c, r⟩ = none := by
    rw [Exchange.counts?_engine, h]
    rfl
  constructor
  · intro s
    rw [Service.exchanges_uncounted]
    cases (s.callEngine c).1 with
    | abandoned => rfl
    | returned r =>
      rw [List.filterMap_cons_none (hcounts r)]
      rfl
  · intro s
    have hrun : s.run (Cache.uncounted c).run = s.callEngine c := Service.run_request (.engine c)
    rw [Service.exchanges_uncounted, hrun]
    cases (s.callEngine c).1 <;> rfl

/-- A call of the engine that is counted as it is to be. -/
theorem counted (op : Operation) {c : EngineCall} (h : c.method.operation? = some op) :
    (Cache.counted op c).run.Accounts fun _ => [] := by
  have hcounts (r : Except CacheError c.Reply) : Exchange.counts? ⟨.engine c, r⟩ = some (op, .ofResult r) := by
    rw [Exchange.counts?_engine, h]
    rfl
  constructor
  · intro s
    rw [Service.exchanges_counted]
    cases (s.callEngine c).1 with
    | abandoned => rfl
    | returned r =>
      rw [List.filterMap_cons_some (hcounts r)]
      rfl
  · intro s
    rw [Service.exchanges_counted, Service.run_counted]
    obtain ⟨o, s₁⟩ := s.callEngine c
    cases o <;> rfl

/-! ### Actions that can fail -/

variable {n : Except ε α → List Event} {m : Except ε β → List Event}

theorem bindOk {x : ExceptT ε Action α} {f : α → ExceptT ε Action β} (hx : x.run.Accounts n)
    (hok : ∀ a, n (.ok a) = []) (herror : ∀ e, m (.error e) = n (.error e)) (hf : ∀ a, (f a).run.Accounts m) :
    (x >>= f).run.Accounts m := by
  refine bind hx fun r => ?_
  cases r with
  | ok a => exact .inl ⟨hok a, hf a⟩
  | error e => exact .inr ⟨.error e, rfl, herror e⟩

/-- What an action is noted as that cannot fail, with another one after it. -/
theorem liftThen {x : Action α} {f : α → ExceptT ε Action β} (hx : x.Accounts fun _ => [])
    (hf : ∀ a, (f a).run.Accounts m) : (liftM x >>= f : ExceptT ε Action β).run.Accounts m := by
  change (ExceptT.lift x >>= f).run.Accounts m
  rw [ExceptT.run_bind_lift]
  exact bind hx fun a => .inl ⟨rfl, hf a⟩

/-- An action that cannot fail, as one that can. -/
theorem lift {x : Action α} (hx : x.Accounts fun _ => []) (hn : ∀ a, n (.ok a) = []) :
    (liftM x : ExceptT ε Action α).run.Accounts n :=
  bind hx fun a => .inr ⟨.ok a, rfl, hn a⟩

/-- A failure of the cache is noted as nothing. -/
theorem liftCache {x : CacheAction α} {n : Except ServiceError α → List Event} (hx : x.run.Accounts fun _ => [])
    (hn : ∀ r : Except CacheError α, n (r.mapError .cache) = []) : (CacheAction.lift x).run.Accounts n :=
  bind hx fun r => .inr ⟨r.mapError .cache, rfl, hn r⟩

/-- What an action counts at its end is what its result is noted as. -/
theorem noted {e : Event} (he : e.isNote = true) {a : α} (hn : n (.ok a) = [e]) :
    (do Action.record e; return a : ExceptT ε Action α).run.Accounts n := by
  change (Action.record e >>= fun _ => Action.done (.ok a)).Accounts n
  exact bind (record he) fun _ => .inr ⟨.ok a, rfl, hn⟩

theorem forM {f : α → ExceptT ε Action PUnit} (l : List α) (h : ∀ a, (f a).run.Accounts fun _ => []) :
    (l.forM f).run.Accounts fun _ => [] := by
  induction l with
  | nil => exact done rfl
  | cons a l ih =>
    change (f a >>= fun _ => l.forM f).run.Accounts _
    exact (h a).bindOk (fun _ => rfl) (fun _ => rfl) fun _ => ih

theorem mapM {f : α → ExceptT ε Action β} (l : List α) (h : ∀ a, (f a).run.Accounts fun _ => []) :
    (l.mapM f).run.Accounts fun _ => [] := by
  induction l with
  | nil => exact done rfl
  | cons a l ih =>
    rw [List.mapM_cons]
    refine (h a).bindOk (fun _ => rfl) (fun _ => rfl) fun _ => ?_
    exact ih.bindOk (fun _ => rfl) (fun _ => rfl) fun _ => done rfl

end Action.Accounts

/-! ## The operations -/

open Gatehouse.Action (Accounts)

/-- A value that has no stored form is put nowhere, and counted as nothing. -/
theorem Cache.put_accounts [Json.Encode α] (key : String) (value : α) (expiration : Option Span) :
    (put key value expiration).run.Accounts fun _ => [] := by
  unfold put
  split
  · exact .counted _ rfl
  · exact .done rfl

/-- An entry that cannot be read was still found, and counted as that. -/
theorem Cache.entries_accounts [Json.FromJson α] (stem : String) :
    (entries (α := α) stem).run.Accounts fun _ => [] :=
  Accounts.bindOk (Accounts.counted .scan rfl) (fun _ => rfl) (fun _ => rfl) fun _ => .done rfl

theorem CacheCall.accounts (c : CacheCall) : c.action.run.Accounts fun _ => [] := by
  cases c with
  | has key => exact .counted _ rfl
  | get α key => exact (Accounts.counted .get rfl).bindOk (fun _ => rfl) (fun _ => rfl) fun _ => .done rfl
  | put α key value expiration => exact Cache.put_accounts key value expiration
  | delete key => exact .counted _ rfl
  | take key => exact .counted _ rfl
  | remaining key => exact .uncounted rfl
  | keys stem => exact .counted _ rfl
  | values α stem => exact (Cache.entries_accounts stem).bindOk (fun _ => rfl) (fun _ => rfl) fun _ => .done rfl
  | items α stem => exact (Cache.entries_accounts stem).bindOk (fun _ => rfl) (fun _ => rfl) fun _ => .done rfl
  | flush => exact .uncounted rfl
  | close => exact .uncounted rfl

/-- What a call of the engine is to be counted as, if it is answered. -/
def EngineCall.counts (s : Service) (e : EngineCall) : List (Operation × Ending) :=
  match (s.callEngine e).1 with
  | .returned r => (Exchange.counts? ⟨.engine e, r⟩).toList
  | .abandoned => []

/-- Reading what was found makes no further request. -/
theorem Service.exchanges_read (s : Service) (x : CacheAction α) (f : α → Except CacheError β) :
    s.exchanges (x >>= fun a => ExceptT.mk (pure (f a))).run = s.exchanges x.run := by
  rw [Service.exchanges_bind]
  split <;> exact List.append_nil _

theorem Service.counts_counted (s : Service) (op : Operation) (e : EngineCall) :
    (s.exchanges (Cache.counted op e).run).filterMap Exchange.counts? = e.counts s := by
  unfold EngineCall.counts
  rw [Service.exchanges_counted]
  cases (s.callEngine e).1 with
  | abandoned => rfl
  | returned r =>
    simp only [List.filterMap_cons]
    cases Exchange.counts? ⟨.engine e, r⟩ <;> rfl

theorem Service.counts_uncounted (s : Service) (e : EngineCall) :
    (s.exchanges (Cache.uncounted e).run).filterMap Exchange.counts? = e.counts s := by
  unfold EngineCall.counts
  rw [Service.exchanges_uncounted]
  cases (s.callEngine e).1 with
  | abandoned => rfl
  | returned r =>
    simp only [List.filterMap_cons]
    cases Exchange.counts? ⟨.engine e, r⟩ <;> rfl

/-- A call of the cache is counted by how its one call of the engine ended, whether or not what was found could be read,
and as nothing if its value has no stored form. -/
theorem CacheCall.exchanges_counts (s : Service) (c : CacheCall) :
    (s.exchanges c.action.run).filterMap Exchange.counts? =
      match c.plan with
      | .error _ => []
      | .ok ⟨e, _⟩ => e.counts s := by
  have hentries (α : Type) [Json.FromJson α] (stem : String) :
      s.exchanges (Cache.entries (α := α) stem).run = s.exchanges (Cache.counted .scan (.entries stem)).run :=
    s.exchanges_read (Cache.counted .scan (.entries stem)) fun found => Cache.readEntries (α := α) found
  cases c with
  | has key => exact s.counts_counted .has (.has key)
  | get α key =>
    have hread := s.exchanges_read (Cache.counted .get (.fetch key)) fun b => Cache.read (α := α) b
    exact (congrArg _ hread).trans (s.counts_counted .get (.fetch key))
  | put α key value expiration =>
    simp only [action, plan, Cache.put]
    cases Json.Encode.encode value with
    | ok b => exact s.counts_counted .put (.put key b (Cache.lifetime expiration))
    | error e => rfl
  | delete key => exact s.counts_counted .delete (.delete key)
  | take key => exact s.counts_counted .take (.take key)
  | remaining key => exact s.counts_uncounted (.remaining key)
  | keys stem => exact s.counts_counted .scan (.keys stem)
  | values α stem =>
    have hread := s.exchanges_read (Cache.entries stem) fun l : List (String × α) => .ok (l.map Prod.snd)
    exact (congrArg _ (hread.trans (hentries α stem))).trans (s.counts_counted .scan (.entries stem))
  | items α stem =>
    have hread := s.exchanges_read (Cache.entries stem) fun l : List (String × α) => .ok (Table.ofList l)
    exact (congrArg _ (hread.trans (hentries α stem))).trans (s.counts_counted .scan (.entries stem))
  | flush => exact s.counts_uncounted .flush
  | close => exact s.counts_uncounted .close

namespace Limiter

variable (l : Limiter)

theorem count_accounts : l.count.Accounts fun _ => [] := by
  refine Accounts.bind (Accounts.counted .scan (c := .keys l.attemptStem) rfl) fun r => ?_
  cases r with
  | ok keys => exact .inr ⟨_, rfl, rfl⟩
  | error e => exact .inr ⟨_, rfl, rfl⟩

/-- A guard notes a rejection just if it rejects. -/
theorem guard_accounts (limit : Nat) : (l.guard limit).run.Accounts (rejects l.space) := by
  refine Accounts.bind l.count_accounts fun used => .inl ⟨rfl, ?_⟩
  split
  · exact Accounts.bind (Accounts.record rfl) fun _ => .inr ⟨_, rfl, rfl⟩
  · exact .done rfl

theorem recordAt_accounts {n : Except ServiceError Unit → List Event} (second : Int64)
    (hn : ∀ r : Except CacheError Unit, n (r.mapError .cache) = []) : (l.recordAt second).run.Accounts n :=
  (Cache.put_accounts _ _ _).liftCache hn

theorem record_accounts {n : Except ServiceError Unit → List Event}
    (hn : ∀ r : Except CacheError Unit, n (r.mapError .cache) = []) : l.record.run.Accounts n :=
  Accounts.liftThen Accounts.clock fun _ => l.recordAt_accounts _ hn

theorem clear_accounts : l.clear.run.Accounts fun _ => [] := by
  have hattempts : l.attempts.run.Accounts fun _ => [] := Accounts.counted _ rfl
  have hlisted : (CacheAction.lift l.attempts).run.Accounts fun _ => [] := hattempts.liftCache fun _ => rfl
  refine hlisted.bindOk (fun _ => rfl) (fun _ => rfl) fun keys => ?_
  exact Accounts.forM keys fun key => Accounts.liftCache (Accounts.counted _ rfl) fun _ => rfl

end Limiter

/-- A failure of the cache rejects nothing. -/
theorem Limiter.rejects_cache (space : String) (r : Except CacheError α) :
    rejects space (r.mapError ServiceError.cache) = [] := by
  cases r <;> rfl

namespace OneTimeCode

variable (settings : CodeSettings) (medium credential code : String)

theorem generate_accounts (length : Nat) : (generate length).Accounts fun _ => [] := by
  unfold generate
  split
  · exact Accounts.bind (Accounts.draw 9 length) fun _ => .inr ⟨_, rfl, rfl⟩
  · exact .abandon

/-- An issue notes a rejection just if its guard rejects, for nothing after it does. -/
theorem issue_accounts : (issue settings medium credential).run.Accounts (Limiter.rejects space) := by
  refine (Limiter.guard_accounts _ _).bindOk (fun _ => rfl) (fun e => by cases e <;> rfl) fun _ => ?_
  refine Accounts.liftThen (generate_accounts _) fun code => ?_
  have hput : (CacheAction.lift (Cache.put (Keys.code medium credential code) true (some settings.lifetime))
      ).run.Accounts (Limiter.rejects space) := (Cache.put_accounts _ _ _).liftCache (Limiter.rejects_cache space)
  refine hput.bindOk (fun _ => rfl) (fun e => by cases e <;> rfl) fun _ => ?_
  have hrecord := (limiter settings medium credential).record_accounts (Limiter.rejects_cache space)
  exact hrecord.bindOk (fun _ => rfl) (fun e => by cases e <;> rfl) fun _ => .done rfl

theorem verify_accounts : (verify settings medium credential code).run.Accounts fun _ => [] := by
  have htake : (CacheAction.lift (Cache.take (Keys.code medium credential code))).run.Accounts fun _ => [] :=
    Accounts.liftCache (Accounts.counted _ rfl) fun _ => rfl
  refine htake.bindOk (fun _ => rfl) (fun _ => rfl) fun used => ?_
  cases used with
  | false => exact .done rfl
  | true => exact (Limiter.clear_accounts _).bindOk (fun _ => rfl) (fun _ => rfl) fun _ => .done rfl

end OneTimeCode

namespace Revocation

theorem store_accounts (c : StoreCall) : (store c).run.Accounts fun _ => [] := Accounts.store c

theorem mark_accounts (r : TokenRecord) (now : Instant) : (mark r now).run.Accounts fun _ => [] := by
  have hlifetime : (Action.ofOutcome (markerLifetime r.expiresAt now)).Accounts fun _ => [] := by
    cases markerLifetime r.expiresAt now with
    | returned lifetime => exact .done rfl
    | abandoned => exact .abandon
  exact Accounts.liftThen hlifetime fun _ => (Cache.put_accounts _ _ _).liftCache fun _ => rfl

/-- The revocation of a record is noted once its marker is written. -/
theorem conclude_accounts {n : Except ServiceError TokenRecord → List Event} (r : TokenRecord) (now : Instant)
    (hok : n (.ok r) = [.revocation r.kind]) (herror : ∀ e, n (.error e) = []) : (conclude r now).run.Accounts n :=
  (mark_accounts r now).bindOk (fun _ => rfl) herror fun _ => .noted rfl hok

theorem revoke_accounts {n : Except ServiceError TokenRecord → List Event} (r : TokenRecord)
    (hok : ∀ r', n (.ok r') = [.revocation r'.kind]) (herror : ∀ e, n (.error e) = []) :
    (revoke r).run.Accounts n := by
  rw [revoke_eq]
  refine Accounts.liftThen Accounts.clock fun now => ?_
  split
  · exact conclude_accounts r now (hok _) herror
  · exact (store_accounts _).bindOk (fun _ => rfl) herror fun _ => conclude_accounts _ now (hok _) herror

theorem revokeById_accounts (id : String) :
    (revokeById id).run.Accounts (ServiceCall.revokeById id).notes := by
  refine (store_accounts _).bindOk (fun _ => rfl) (fun _ => rfl) fun found => ?_
  cases found with
  | none => exact .done rfl
  | some r => exact revoke_accounts r (fun _ => rfl) fun _ => rfl

theorem restore_accounts (now : Instant) (kind : TokenKind) : (restore now kind).run.Accounts fun _ => [] := by
  refine (store_accounts _).bindOk (fun _ => rfl) (fun _ => rfl) fun records => ?_
  exact (Accounts.forM records fun r => mark_accounts r now).bindOk (fun _ => rfl) (fun _ => rfl) fun _ => .done rfl

/-- A load notes its count when all markers are written. -/
theorem load_accounts : load.run.Accounts ServiceCall.loadRevocations.notes := by
  refine Accounts.liftThen Accounts.clock fun now => ?_
  have hrestores := Accounts.mapM TokenKind.all fun kind => restore_accounts now kind
  exact hrestores.bindOk (fun _ => rfl) (fun _ => rfl) fun counts => .noted rfl rfl

theorem isRevoked_accounts (id : String) : (isRevoked id).run.Accounts fun _ => [] :=
  Accounts.liftCache (Accounts.counted _ rfl) fun _ => rfl

end Revocation

namespace Authenticator

variable (t : AccessToken) (allowed : List AccountType)

theorem accept_accounts : (accept t allowed).run.Accounts fun _ => [] := by
  refine (Revocation.isRevoked_accounts t.id).bindOk (fun _ => rfl) (fun _ => rfl) fun revoked => ?_
  cases revoked with
  | true => exact .done rfl
  | false =>
    rw [if_neg Bool.false_ne_true]
    cases allowed? t allowed with
    | some a => exact .done rfl
    | none => exact .done rfl

theorem verify_accounts : (verify t allowed).run.Accounts fun _ => [] := by
  cases hexp : t.expiresAt.isSome with
  | false =>
    rw [verify_of_unexpiring hexp]
    exact accept_accounts t allowed
  | true =>
    rw [verify_of_expiring hexp]
    refine Accounts.liftThen Accounts.clock fun now => ?_
    split
    · exact .done rfl
    · exact accept_accounts t allowed

end Authenticator

/-- Every call of the service counts what it is to be counted and noted as. -/
theorem ServiceCall.accounts (c : ServiceCall) : c.action.run.Accounts c.notes := by
  cases c with
  | recordAttempt space ids window => exact Limiter.record_accounts _ fun _ => rfl
  | recordAttemptAt space ids window second => exact Limiter.recordAt_accounts _ second fun _ => rfl
  | countAttempts space ids window => exact Accounts.lift (Limiter.count_accounts _) fun _ => rfl
  | guardAttempts space ids window limit => exact Limiter.guard_accounts _ limit
  | clearAttempts space ids window => exact Limiter.clear_accounts _
  | issueCode settings medium credential => exact OneTimeCode.issue_accounts settings medium credential
  | verifyCode settings medium credential code => exact OneTimeCode.verify_accounts settings medium credential code
  | revoke record => exact Revocation.revoke_accounts record (fun _ => rfl) fun _ => rfl
  | revokeById id => exact Revocation.revokeById_accounts id
  | isRevoked id => exact Revocation.isRevoked_accounts id
  | loadRevocations => exact Revocation.load_accounts
  | verifyToken token allowed => exact Authenticator.verify_accounts token allowed
  | saveRecord record => exact Revocation.store_accounts (.save record)
  | closeCache => exact Accounts.liftCache (Accounts.uncounted rfl) fun _ => rfl

/-! ## Runs -/

/-- What a service goes through. -/
inductive Activity : Type 1 where
  | event (e : ServiceEvent)
  /-- A call of the cache. -/
  | cache (c : CacheCall)
  /-- The service starts over the engine that it has. -/
  | start
  /-- Another engine is opened in place of the one before. -/
  | opened (e : Engine)
  /-- A call of the engine below the cache. -/
  | engine (c : EngineCall)

/-- What a call is to be noted as by what it ended with. -/
def Answered.notes (a : Answered) : List Event := a.outcome.notes a.call.notes

namespace Service

variable (s : Service)

/-- The service after an activity. -/
def undergo : Activity → Service
  | .event e => s.apply e
  | .cache c => (s.run c.action.run).2
  | .start => s.start.2
  | .opened e => { s with engine := e }
  | .engine c => (s.callEngine c).2

/-- The requests of an activity that are made through the cache and the store, with their answers. -/
def exchangesOf : Activity → List Exchange
  | .event (.call c) => s.exchanges c.action.run
  | .cache c => s.exchanges c.action.run
  | .start => s.exchanges Revocation.load.run
  | _ => []

/-- The call of an activity with what it ended with; a start is a load. -/
def answersOf : Activity → List Answered
  | .event (.call c) => [⟨s.clocks, c, (s.run c.action.run).1⟩]
  | .start => [⟨s.clocks, .loadRevocations, (s.run Revocation.load.run).1⟩]
  | _ => []

/-- The service after a run. -/
def through (activities : List Activity) : Service := activities.foldl undergo s

/-- The requests of a run that are made through the cache and the store, with their answers. -/
def exchanged (s : Service) : List Activity → List Exchange
  | [] => []
  | a :: rest => s.exchangesOf a ++ (s.undergo a).exchanged rest

/-- The calls of a run with what they ended with. -/
def answered (s : Service) : List Activity → List Answered
  | [] => []
  | a :: rest => s.answersOf a ++ (s.undergo a).answered rest

/-- An activity counts what it is to be counted and noted as. -/
theorem undergo_accounts (a : Activity) :
    ∃ events : List Event, (s.undergo a).metrics = events.foldl Metrics.record s.metrics ∧
      events.filterMap Event.operation? = (s.exchangesOf a).filterMap Exchange.counts? ∧
      events.filter Event.isNote = (s.answersOf a).flatMap Answered.notes := by
  have hrun {α : Type} {x : Action α} {n : α → List Event} (hx : x.Accounts n) :
      ∃ events : List Event, (s.run x).2.metrics = events.foldl Metrics.record s.metrics ∧
        events.filterMap Event.operation? = (s.exchanges x).filterMap Exchange.counts? ∧
        events.filter Event.isNote = (s.run x).1.notes n :=
    ⟨_, s.metrics_run x, hx.operations s, hx.notes s⟩
  have hnothing {s' : Service} (h : s'.metrics = s.metrics) :
      ∃ events : List Event, s'.metrics = events.foldl Metrics.record s.metrics ∧
        events.filterMap Event.operation? = [] ∧ events.filter Event.isNote = [] := ⟨[], h, rfl, rfl⟩
  cases a with
  | event e =>
    cases e with
    | call c =>
      obtain ⟨events, hmetrics, hoperations, hnotes⟩ := hrun c.accounts
      exact ⟨events, hmetrics, hoperations, hnotes.trans (List.append_nil _).symm⟩
    | _ => exact hnothing rfl
  | cache c =>
    obtain ⟨events, hmetrics, hoperations, hnotes⟩ := hrun c.accounts
    refine ⟨events, hmetrics, hoperations, hnotes.trans ?_⟩
    cases (s.run c.action.run).1 <;> rfl
  | start =>
    obtain ⟨events, hmetrics, hoperations, hnotes⟩ := hrun Revocation.load_accounts
    exact ⟨events, hmetrics, hoperations, hnotes.trans (List.append_nil _).symm⟩
  | opened e => exact hnothing rfl
  | engine c => exact hnothing (s.callEngine_metrics c)

/-- And so does a run. -/
theorem through_accounts (activities : List Activity) :
    ∃ events : List Event, (s.through activities).metrics = events.foldl Metrics.record s.metrics ∧
      events.filterMap Event.operation? = (s.exchanged activities).filterMap Exchange.counts? ∧
      events.filter Event.isNote = (s.answered activities).flatMap Answered.notes := by
  induction activities generalizing s with
  | nil => exact ⟨[], rfl, rfl, rfl⟩
  | cons a rest ih =>
    obtain ⟨events, hmetrics, hoperations, hnotes⟩ := s.undergo_accounts a
    obtain ⟨later, hmetrics', hoperations', hnotes'⟩ := ih (s.undergo a)
    refine ⟨events ++ later, ?_, ?_, ?_⟩
    · rw [List.foldl_append, ← hmetrics]
      exact hmetrics'
    · rw [List.filterMap_append, hoperations, hoperations', ← List.filterMap_append]
      rfl
    · rw [List.filter_append, hnotes, hnotes', ← List.flatMap_append]
      rfl

/-- The metrics account for every call. After any run of calls of the service and of the cache, of starts, and of
whatever else happens, with any calls of the engine and the store made to fail, the counter of an operation and an
ending has gone up by the number of calls of the engine that were made through the cache and ended so, that of
rejections in a name space by the number of guards and issues that were rejected there, and that of a kind by the number
of revocations of that kind that succeeded; and what is shown as restored is the count of the last load that succeeded.
A call of the cache makes one such call of the engine, however its answer is read, and none if its value has no stored
form. -/
theorem metrics_account (activities : List Activity) :
    let m := (s.through activities).metrics
    let notes := (s.answered activities).flatMap Answered.notes
    (∀ op ending, m.operations op ending =
      s.metrics.operations op ending + (s.exchanged activities).countP fun e => e.counts? = some (op, ending)) ∧
    (∀ space, (m.rejections.get? space).getD 0 =
      (s.metrics.rejections.get? space).getD 0 + notes.count (.rejection space)) ∧
    (∀ kind, m.revocations kind = s.metrics.revocations kind + notes.count (.revocation kind)) ∧
    m.loaded = (notes.filterMap Event.restored?).getLast?.or s.metrics.loaded ∧
    ∀ (s' : Service) (c : CacheCall), (s'.exchanges c.action.run).filterMap Exchange.counts? =
      match c.plan with
      | .error _ => []
      | .ok ⟨e, _⟩ => e.counts s' := by
  intro m notes
  obtain ⟨events, hmetrics, hoperations, hnotes⟩ := s.through_accounts activities
  have hm : m = events.foldl Metrics.record s.metrics := hmetrics
  have hcount {e : Event} (he : e.isNote = true) : events.count e = notes.count e := by
    rw [show notes = _ from hnotes.symm, List.count_filter he]
  refine ⟨fun op ending => ?_, fun space => ?_, fun kind => ?_, ?_, CacheCall.exchanges_counts⟩
  · rw [hm, Metrics.operations_foldl, ← Event.count_operation, hoperations, List.count_filterMap]
    exact congrArg _ (List.countP_congr fun e _ => by rw [beq_iff_eq, decide_eq_true_eq])
  · rw [hm, Metrics.rejections_foldl, hcount rfl]
  · rw [hm, Metrics.revocations_foldl, hcount rfl]
  · rw [hm, Metrics.loaded_foldl, show notes = _ from hnotes.symm, Event.restored?_filter]

/-- A text that cannot be read as a number was still found; a call that is made to fail is an error; and a guard that
lists no attempts rejects nothing but a limit of none. -/
example :
    let s := Service.new ⟨0, 0⟩ (.memory (Memory.start 0 none)) .empty fun _ => 0
    let m := (s.through [.cache (.put String "k" "text" none), .cache (.get Int64 "k"), .cache (.get String "x"),
      .event (.failEngine .has (some .engineClosed)), .cache (.has "k"),
      .event (.call (.guardAttempts "login" ["a"] (Span.ofSeconds 60) 1)),
      .event (.call (.guardAttempts "login" ["a"] (Span.ofSeconds 60) 0))]).metrics
    m.operations .get .ok = 1 ∧ m.operations .get .miss = 1 ∧ m.operations .has .error = 1 ∧
      m.operations .scan .ok = 2 ∧ m.rejections.get? "login" = some 1 := by
  decide +kernel

end Service

end Gatehouse
