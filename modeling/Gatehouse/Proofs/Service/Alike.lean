import Gatehouse.Proofs.Cache.Live
import Gatehouse.Proofs.Service.Calm
import Gatehouse.Proofs.Service.Events

/-!
# Services that an action cannot tell apart

A scope says what an action has to do with: the keys of some entries, the store of records, the random numbers. Two
services that are alike within a scope answer every action that keeps to it alike, and stay alike (`Alike.run`); an
action that keeps to a scope apart from it makes no difference (`Alike.run_apart`).
-/

namespace Gatehouse

/-! ## Scopes -/

/-- What an action may have to do with, besides the clocks and the counts. -/
structure Scope where
  keys : String → Prop
  store : Prop
  draws : Prop

namespace Scope

/-- Everything there is. -/
def whole : Scope := ⟨fun _ => True, True, True⟩

/-- Nothing at all. -/
def none : Scope := ⟨fun _ => False, False, False⟩

/-- The requests within a scope. -/
def admits (S : Scope) : Request → Prop
  | .engine c => Memory.Inside S.keys c
  | .store _ => S.store
  | .draw _ _ => S.draws
  | .clock | .record _ => True

/-- The protocol of a scope. -/
def protocol (S : Scope) : Protocol := .asking S.admits

/-- Two scopes have nothing in common, and one of them has a key. -/
structure Apart (S T : Scope) : Prop where
  keys : ∀ key, T.keys key → ¬S.keys key
  inhabited : ∃ key, S.keys key
  store : S.store → ¬T.store
  draws : S.draws → ¬T.draws

theorem whole_apart_none : whole.Apart none := ⟨fun _ h => h.elim, ⟨"", trivial⟩, fun _ => id, fun _ => id⟩

/-- Nothing is outside of the whole scope. -/
theorem whole_admits (r : Request) : whole.admits r := by
  cases r with
  | engine c => cases c <;> simp [admits, whole, Memory.Inside]
  | _ => trivial

theorem follows_whole {α : Type} (x : Action α) : x.Follows whole.protocol fun _ => True := by
  induction x with
  | done a => trivial
  | abandon => trivial
  | ask r next ih => exact ⟨whole_admits r, fun a _ => ih a⟩

/-- Calls may be made on the keys of a scope. -/
theorem opens (S : Scope) {K : String → Prop} (hK : ∀ key, K key → S.keys key) : S.protocol.Opens K where
  point _ key hc hkey := Memory.inside_of_key? hc (hK key hkey)
  listed _ _ hl := hl
  clock := trivial
  record _ := trivial

end Scope

namespace Service

variable {α : Type} {s s' : Service} {S T : Scope}

/-- The engine in memory tells of nothing but keys under the text of a scan. -/
theorem answer_tells {m : Memory} {A : Request → Prop} (hm : s.engine = .memory m) (r : Request) (x : r.Answer)
    (hx : (s.answer r).1 = .returned x) : (Protocol.asking A).tells r x := by
  cases r with
  | engine c =>
    change (s.callEngine c).1 = .returned x at hx
    unfold callEngine at hx
    split at hx
    · cases hx
      cases c <;> trivial
    · rw [hm] at hx
      exact told_perform _ m c x hx
  | _ => trivial

/-! ## Services that are alike -/

/-- Two services over engines in memory cannot be told apart within a scope. -/
structure Alike (S : Scope) (s s' : Service) : Prop where
  clocks_eq : s'.clocks = s.clocks
  engine : ∃ m m', s.engine = .memory m ∧ s'.engine = .memory m' ∧ m.Alike S.keys s.clocks.monotonic m'
  engineFaults_eq : s'.engineFaults = s.engineFaults
  storeFaults_eq : s'.storeFaults = s.storeFaults
  store_eq : S.store → s'.store = s.store
  entropy_eq : S.draws → s'.entropy = s.entropy

namespace Alike

theorem refl {m : Memory} (hm : s.engine = .memory m) : s.Alike S s :=
  ⟨rfl, ⟨m, m, hm, hm, .refl m⟩, rfl, rfl, fun _ => rfl, fun _ => rfl⟩

/-- The counts of events cannot be told apart. -/
theorem counting {m : Memory} (hm : s.engine = .memory m) (metrics : Metrics) : s.Alike S { s with metrics } :=
  ⟨rfl, ⟨m, m, hm, hm, .refl m⟩, rfl, rfl, fun _ => rfl, fun _ => rfl⟩

theorem callEngine (h : s.Alike S s') {c : EngineCall} (hc : Memory.Inside S.keys c) :
    (s'.callEngine c).1 = (s.callEngine c).1 ∧ (s.callEngine c).2.Alike S (s'.callEngine c).2 := by
  obtain ⟨m, m', hm, hm', hengine⟩ := h.engine
  unfold Service.callEngine
  rw [h.engineFaults_eq]
  cases s.engineFaults.next c.method with
  | some e => exact ⟨rfl, h.clocks_eq, ⟨m, m', hm, hm', hengine⟩, rfl, h.storeFaults_eq, h.store_eq, h.entropy_eq⟩
  | none =>
    obtain ⟨hanswer, hafter⟩ := hengine.perform hc
    rw [hm, hm', h.clocks_eq]
    exact ⟨hanswer, rfl, ⟨_, _, rfl, rfl, hafter⟩, rfl, h.storeFaults_eq, h.store_eq, h.entropy_eq⟩

theorem callStore (h : s.Alike S s') (hstore : S.store) (c : StoreCall) :
    (s'.callStore c).1 = (s.callStore c).1 ∧ (s.callStore c).2.Alike S (s'.callStore c).2 := by
  unfold Service.callStore
  rw [h.storeFaults_eq, h.store_eq hstore]
  cases s.storeFaults.next c.method with
  | some e => exact ⟨rfl, h.clocks_eq, h.engine, h.engineFaults_eq, rfl, fun _ => rfl, h.entropy_eq⟩
  | none => exact ⟨rfl, h.clocks_eq, h.engine, h.engineFaults_eq, rfl, fun _ => rfl, h.entropy_eq⟩

/-- A request within the scope is answered alike. -/
theorem answer (h : s.Alike S s') {r : Request} (hr : S.admits r) :
    (s'.answer r).1 = (s.answer r).1 ∧ (s.answer r).2.Alike S (s'.answer r).2 := by
  cases r with
  | engine c => exact h.callEngine hr
  | store c =>
    obtain ⟨hanswer, hafter⟩ := h.callStore hr c
    exact ⟨congrArg Outcome.returned hanswer, hafter⟩
  | clock => exact ⟨congrArg (fun c : Clocks => Outcome.returned c.instant) h.clocks_eq, h⟩
  | draw limit count =>
    have heq := h.entropy_eq hr
    refine ⟨by simp only [Service.answer, heq], h.clocks_eq, h.engine, h.engineFaults_eq, h.storeFaults_eq,
      h.store_eq, fun _ => ?_⟩
    simp only [Service.answer, heq]
  | record e =>
    exact ⟨rfl, h.clocks_eq, h.engine, h.engineFaults_eq, h.storeFaults_eq, h.store_eq, h.entropy_eq⟩

/-- An action that keeps to the scope makes its next request alike. -/
theorem step (h : s.Alike S s') {x : Action α} {Q : α → Prop} (hx : x.Follows S.protocol Q) :
    (s'.step x).1 = (s.step x).1 ∧ (s.step x).2.Alike S (s'.step x).2 := by
  cases x with
  | done a => exact ⟨rfl, h⟩
  | abandon => exact ⟨rfl, h⟩
  | ask r next =>
    obtain ⟨hanswer, hafter⟩ := h.answer hx.1
    simp only [Service.step, Action.step]
    generalize s.answer r = a at hanswer hafter ⊢
    generalize s'.answer r = a' at hanswer hafter ⊢
    obtain ⟨o, s₁⟩ := a
    obtain ⟨o', s₁'⟩ := a'
    obtain rfl : o' = o := hanswer
    cases o' with
    | returned y => exact ⟨rfl, hafter⟩
    | abandoned => exact ⟨rfl, hafter⟩

/-- An action that keeps to the scope runs alike. -/
theorem run (h : s.Alike S s') {x : Action α} {Q : α → Prop} (hx : x.Follows S.protocol Q) :
    (s'.run x).1 = (s.run x).1 ∧ (s.run x).2.Alike S (s'.run x).2 := by
  unfold Service.run
  induction x generalizing s s' with
  | done a => exact ⟨rfl, h⟩
  | abandon => exact ⟨rfl, h⟩
  | ask r next ih =>
    obtain ⟨m, -, hm, -⟩ := h.engine
    have htells := answer_tells (A := S.admits) hm r
    obtain ⟨hanswer, hafter⟩ := h.answer hx.1
    simp only [Action.run]
    generalize s.answer r = a at htells hanswer hafter ⊢
    generalize s'.answer r = a' at hanswer hafter ⊢
    obtain ⟨o, s₁⟩ := a
    obtain ⟨o', s₁'⟩ := a'
    obtain rfl : o' = o := hanswer
    cases o' with
    | returned y => exact ih y hafter (hx.2 y (htells y rfl))
    | abandoned => exact ⟨rfl, hafter⟩

/-- What is no call happens to two services alike. -/
theorem apply (h : s.Alike S s') {e : ServiceEvent} (he : ∀ c, e ≠ .call c) : (s.apply e).Alike S (s'.apply e) := by
  obtain ⟨m, m', hm, hm', hengine⟩ := h.engine
  have hadvance (d : Span) : (s.advance d).Alike S (s'.advance d) := by
    unfold Service.advance
    rw [h.clocks_eq, hm, hm']
    exact ⟨rfl, ⟨_, _, rfl, rfl, (hengine.later (Nat.le_add_right _ _)).tick⟩, h.engineFaults_eq, h.storeFaults_eq,
      h.store_eq, h.entropy_eq⟩
  cases e with
  | call c => exact absurd rfl (he c)
  | prune =>
    change ({ s with engine := s.engine.prune s.clocks } : Service).Alike S
      { s' with engine := s'.engine.prune s'.clocks }
    rw [h.clocks_eq, hm, hm']
    exact ⟨rfl, ⟨_, _, rfl, rfl, hengine.prune⟩, h.engineFaults_eq, h.storeFaults_eq, h.store_eq, h.entropy_eq⟩
  | failEngine method fate =>
    exact ⟨h.clocks_eq, h.engine, congrArg (fun p => p.add method fate) h.engineFaults_eq, h.storeFaults_eq,
      h.store_eq, h.entropy_eq⟩
  | failStore method fate =>
    exact ⟨h.clocks_eq, h.engine, h.engineFaults_eq, congrArg (fun p => p.add method fate) h.storeFaults_eq,
      h.store_eq, h.entropy_eq⟩
  | advance d => exact hadvance d
  | shiftWall nanos =>
    exact ⟨congrArg (fun c : Clocks => { c with wall := c.wall + nanos }) h.clocks_eq, h.engine, h.engineFaults_eq,
      h.storeFaults_eq, h.store_eq, h.entropy_eq⟩
  | advanceMonotonic d =>
    have h' := hadvance d
    exact ⟨congrArg (fun c : Clocks => { c with wall := c.wall + -d.nanos }) h'.clocks_eq, h'.engine,
      h'.engineFaults_eq, h'.storeFaults_eq, h'.store_eq, h'.entropy_eq⟩

/-! ## Actions apart -/

/-- A request within a scope that is apart makes no difference, if no call is planned to fail. -/
theorem answer_apart (h : s.Alike S s') (hs : s.Faultless) (hST : S.Apart T) {r : Request} (hr : T.admits r) :
    (s.answer r).2.Alike S s' := by
  obtain ⟨m, m', hm, hm', halike⟩ := h.engine
  obtain ⟨hengine, hstore⟩ := hs
  cases r with
  | engine c =>
    obtain ⟨witness, hwitness⟩ := hST.inhabited
    have hframe := Memory.Alike.frame m s.clocks.monotonic (Memory.outside_of_inside hST.keys hwitness hr)
    change (s.callEngine c).2.Alike S s'
    unfold Service.callEngine
    rw [hengine, FaultPlan.next_empty, FaultPlan.advance_empty, hm]
    exact ⟨h.clocks_eq, ⟨_, m', rfl, hm', hframe.trans halike⟩, h.engineFaults_eq.trans hengine,
      h.storeFaults_eq, h.store_eq, h.entropy_eq⟩
  | store c =>
    change (s.callStore c).2.Alike S s'
    unfold Service.callStore
    rw [hstore, FaultPlan.next_empty, FaultPlan.advance_empty]
    exact ⟨h.clocks_eq, h.engine, h.engineFaults_eq, h.storeFaults_eq.trans hstore, fun hS => absurd hr (hST.store hS),
      h.entropy_eq⟩
  | clock => exact h
  | draw limit count =>
    exact ⟨h.clocks_eq, h.engine, h.engineFaults_eq, h.storeFaults_eq, h.store_eq,
      fun hS => absurd hr (hST.draws hS)⟩
  | record e => exact ⟨h.clocks_eq, h.engine, h.engineFaults_eq, h.storeFaults_eq, h.store_eq, h.entropy_eq⟩

theorem step_apart (h : s.Alike S s') (hs : s.Faultless) (hST : S.Apart T) {x : Action α} {Q : α → Prop}
    (hx : x.Follows T.protocol Q) : (s.step x).2.Alike S s' := by
  cases x with
  | done a => exact h
  | abandon => exact h
  | ask r next =>
    have hafter := h.answer_apart hs hST hx.1
    simp only [Service.step, Action.step]
    generalize s.answer r = a at hafter ⊢
    obtain ⟨o, s₁⟩ := a
    cases o <;> exact hafter

/-- An action that keeps to a scope apart makes no difference, if no call is planned to fail. -/
theorem run_apart (h : s.Alike S s') (hs : s.Faultless) (hST : S.Apart T) {x : Action α} {Q : α → Prop}
    (hx : x.Follows T.protocol Q) : (s.run x).2.Alike S s' := by
  let I (s : Service) : Prop := s.Alike S s' ∧ s.Faultless
  refine (Action.run_follows (I := I) (fun r s hs hr => ⟨⟨?_, ?_⟩, ?_⟩) hx ⟨h, hs⟩).1.1
  · exact hs.1.answer_apart hs.2 hST hr
  · exact answer_faults hs.2.1 hs.2.2 r
  · obtain ⟨m, -, hm, -⟩ := hs.1.engine
    exact answer_tells hm r

end Alike

end Service

end Gatehouse
