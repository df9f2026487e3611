import Gatehouse.Action.Service

/-!
# What actions keep to

An action is a tree of requests, so what all of its requests have in common is a property of the tree. A protocol says
which requests an action may make, given what it is told; running an action that follows a protocol keeps whatever every
admitted request keeps. A discipline is the protocol of an action at one time: it says which calls of the engine the
action may make and which records it may save.
-/

namespace Gatehouse

namespace Action

variable {σ α β γ : Type}

/-! ## Laws of sequencing -/

theorem bind_done (x : Action α) : x.bind done = x := by
  induction x with
  | done a => rfl
  | abandon => rfl
  | ask r next ih => exact congrArg (ask r) (funext fun a => ih a)

theorem bind_bind (x : Action α) (f : α → Action β) (g : β → Action γ) :
    (x.bind f).bind g = x.bind fun a => (f a).bind g := by
  induction x with
  | done a => rfl
  | abandon => rfl
  | ask r next ih => exact congrArg (ask r) (funext fun a => ih a)

instance : LawfulMonad Action :=
  LawfulMonad.mk' Action (fun x => bind_done x) (fun _ _ => rfl) (fun x f g => bind_bind x f g)

/-- Running one action after another runs the second where the first ended. -/
theorem run_bind (answer : Handler σ) (x : Action α) (f : α → Action β) (s : σ) :
    (x >>= f).run answer s =
      match x.run answer s with
      | (.returned a, s') => (f a).run answer s'
      | (.abandoned, s') => (.abandoned, s') := by
  induction x generalizing s with
  | done a => rfl
  | abandon => rfl
  | ask r next ih =>
    change (ask r fun a => (next a).bind f).run answer s = _
    simp only [run]
    split
    · exact ih _ _
    · rfl

end Action

/-! ## Protocols -/

/-- What an action keeps to: the requests that it may make, and what it reckons with in answer. -/
structure Protocol where
  admits : Request → Prop
  tells : (r : Request) → r.Answer → Prop
  /-- Whether an action may end without a result. -/
  abandons : Prop

variable {P : Protocol} {ε α β : Type}

/-- An action keeps to a protocol, and what it ends with satisfies a condition. -/
def Action.Follows (P : Protocol) : Action α → (α → Prop) → Prop
  | .done a, Q => Q a
  | .abandon, _ => P.abandons
  | .ask r next, Q => P.admits r ∧ ∀ x, P.tells r x → (next x).Follows P Q

namespace Action

theorem Follows.mono {x : Action α} {Q R : α → Prop} (h : x.Follows P Q) (hQR : ∀ a, Q a → R a) : x.Follows P R := by
  induction x with
  | done a => exact hQR a h
  | abandon => exact h
  | ask r next ih => exact ⟨h.1, fun a ha => ih a (h.2 a ha)⟩

theorem Follows.bind {x : Action α} {f : α → Action β} {Q : α → Prop} {R : β → Prop} (h : x.Follows P Q)
    (hf : ∀ a, Q a → (f a).Follows P R) : (x >>= f).Follows P R := by
  change (x.bind f).Follows P R
  induction x with
  | done a => exact hf a h
  | abandon => exact h
  | ask r next ih => exact ⟨h.1, fun a ha => ih a (h.2 a ha)⟩

theorem follows_request {r : Request} (h : P.admits r) : (request r).Follows P (P.tells r) :=
  ⟨h, fun _ hx => hx⟩

/-- Running an action keeps what every admitted request keeps, as long as the answers are those that it reckons
with. -/
theorem run_follows {σ : Type} {answer : Handler σ} {I : σ → Prop}
    (hI : ∀ r s, I s → P.admits r → I (answer r s).2 ∧ ∀ x, (answer r s).1 = .returned x → P.tells r x)
    {x : Action α} {Q : α → Prop} (hx : x.Follows P Q) {s : σ} (hs : I s) :
    I (x.run answer s).2 ∧ ∀ a, (x.run answer s).1 = .returned a → Q a := by
  induction x generalizing s with
  | done a => exact ⟨hs, fun b hb => Outcome.returned.inj hb ▸ hx⟩
  | abandon => exact ⟨hs, fun _ hb => by cases hb⟩
  | ask r next ih =>
    obtain ⟨hkeep, htell⟩ := hI r s hs hx.1
    simp only [run]
    split
    · rename_i y s' heq
      rw [heq] at hkeep htell
      exact ih y (hx.2 y (htell y rfl)) hkeep
    · rename_i s' heq
      rw [heq] at hkeep
      exact ⟨hkeep, fun _ hb => by cases hb⟩

/-- An action gets to a result if it may not be abandoned and every admitted request is answered. -/
theorem run_follows_to_end {σ : Type} {answer : Handler σ} {I : σ → Prop} (hP : ¬P.abandons)
    (hI : ∀ r s, I s → P.admits r → ∃ x s', answer r s = (.returned x, s') ∧ I s' ∧ P.tells r x)
    {x : Action α} {Q : α → Prop} (hx : x.Follows P Q) {s : σ} (hs : I s) :
    ∃ a, (x.run answer s).1 = .returned a ∧ Q a := by
  induction x generalizing s with
  | done a => exact ⟨a, rfl, hx⟩
  | abandon => exact absurd hx hP
  | ask r next ih =>
    obtain ⟨y, s', heq, hs', hy⟩ := hI r s hs hx.1
    simp only [run, heq]
    exact ih y (hx.2 y hy) hs'

end Action

/-- An action that can fail keeps to a protocol, and if it does not fail its result satisfies a condition. -/
def Observes (P : Protocol) (x : ExceptT ε Action α) (Q : α → Prop) : Prop :=
  x.run.Follows P fun r => ∀ a, r = .ok a → Q a

namespace Observes

variable {Q R : α → Prop}

theorem mono {x : ExceptT ε Action α} (h : Observes P x Q) (hQR : ∀ a, Q a → R a) : Observes P x R :=
  Action.Follows.mono h fun _ hr a ha => hQR a (hr a ha)

theorem pure {a : α} (h : Q a) : Observes P (Pure.pure a : ExceptT ε Action α) Q := by
  intro b hb
  exact Except.ok.inj hb ▸ h

theorem throw (e : ε) : Observes P (MonadExcept.throw e : ExceptT ε Action α) Q :=
  fun _ hb => nomatch hb

theorem bind {x : ExceptT ε Action α} {f : α → ExceptT ε Action β} {R : β → Prop} (h : Observes P x Q)
    (hf : ∀ a, Q a → Observes P (f a) R) : Observes P (x >>= f) R := by
  refine Action.Follows.bind h ?_
  intro r hr
  cases r with
  | ok a => exact hf a (hr a rfl)
  | error e => exact fun _ hb => nomatch hb

/-- An action that cannot fail, as one that can. -/
theorem lift {x : Action α} (h : x.Follows P Q) : Observes P (liftM x : ExceptT ε Action α) Q := by
  refine Action.Follows.bind h ?_
  intro a ha b hb
  exact Except.ok.inj hb ▸ ha

theorem ofOutcome {o : Outcome α} (hP : P.abandons) (h : ∀ a, o = .returned a → Q a) :
    Observes P (liftM (Action.ofOutcome o) : ExceptT ε Action α) Q := by
  refine lift ?_
  cases o with
  | returned a => exact h a rfl
  | abandoned => exact hP

/-- A failure of the cache on the way changes nothing about which requests are made. -/
theorem liftCache {x : CacheAction α} (h : Observes P x Q) : Observes P (CacheAction.lift x) Q := by
  refine Action.Follows.bind h ?_
  intro r hr
  cases r with
  | ok a => exact fun b hb => Except.ok.inj hb ▸ hr a rfl
  | error e => exact fun _ hb => nomatch hb

theorem forM {f : α → ExceptT ε Action PUnit} {l : List α} (h : ∀ a ∈ l, Observes P (f a) fun _ => True) :
    Observes P (l.forM f) fun _ => True := by
  induction l with
  | nil => exact pure trivial
  | cons a l ih =>
    change Observes P (f a >>= fun _ => l.forM f) fun _ => True
    exact (h a List.mem_cons_self).bind fun _ _ => ih fun b hb => h b (List.mem_cons_of_mem _ hb)

/-- What holds of each result holds of all of them. -/
theorem mapM {R : β → Prop} {f : α → ExceptT ε Action β} {l : List α} (h : ∀ a ∈ l, Observes P (f a) R) :
    Observes P (l.mapM f) fun bs => ∀ b ∈ bs, R b := by
  induction l with
  | nil => exact pure fun _ hb => absurd hb List.not_mem_nil
  | cons a l ih =>
    rw [List.mapM_cons]
    refine (h a List.mem_cons_self).bind ?_
    intro b hb
    refine (ih fun c hc => h c (List.mem_cons_of_mem _ hc)).bind ?_
    intro bs hbs
    exact pure (List.forall_mem_cons.mpr ⟨hb, hbs⟩)

end Observes

/-! ## Disciplines -/

/-- What an action keeps to: the calls of the engine that it may make, and the records that it may save. It is told the
time and records of the same sort. -/
structure Discipline where
  calls : EngineCall → Prop
  records : TokenRecord → Prop
  now : Instant

namespace Discipline

/-- The requests that a discipline admits. -/
def admits (D : Discipline) : Request → Prop
  | .engine c => D.calls c
  | .store (.save r) => D.records r
  | _ => True

/-- What an engine may answer: a scan lists nothing but keys under its text. -/
def told : (c : EngineCall) → Except CacheError c.Reply → Prop
  | .keys stem, .ok l => ∀ k ∈ l, startsWith stem k = true
  | _, _ => True

/-- What a store may answer: it tells of no record that could not have been saved. -/
def toldOfRecords (D : Discipline) : (c : StoreCall) → Except ServiceError c.Reply → Prop
  | .find _, .ok found => ∀ r ∈ found, D.records r
  | .revoked _ _, .ok l => ∀ r ∈ l, D.records r
  | _, _ => True

/-- The answers that an action has to reckon with. -/
def answers (D : Discipline) : (r : Request) → r.Answer → Prop
  | .engine c, x => told c x
  | .store c, x => D.toldOfRecords c x
  | .clock, t => t = D.now
  | .draw _ _, _ => True
  | .record _, _ => True

end Discipline

variable {D : Discipline}

/-- An action keeps to a discipline, and what it ends with satisfies a condition. -/
def Action.Within (D : Discipline) : Action α → (α → Prop) → Prop
  | .done a, Q => Q a
  | .abandon, _ => True
  | .ask r next, Q => D.admits r ∧ ∀ x, D.answers r x → (next x).Within D Q

/-- The protocol of a discipline. An action may be abandoned. -/
def Discipline.protocol (D : Discipline) : Protocol := ⟨D.admits, D.answers, True⟩

theorem Action.within_iff {x : Action α} {Q : α → Prop} : x.Within D Q ↔ x.Follows D.protocol Q := by
  induction x with
  | done a => exact Iff.rfl
  | abandon => exact Iff.rfl
  | ask r next ih => exact and_congr_right fun _ => forall_congr' fun a => imp_congr_right fun _ => ih a

/-- An action that can fail keeps to a discipline, and if it does not fail its result satisfies a condition. -/
def Abides (D : Discipline) (x : ExceptT ε Action α) (Q : α → Prop) : Prop :=
  x.run.Within D fun r => ∀ a, r = .ok a → Q a

theorem abides_iff {x : ExceptT ε Action α} {Q : α → Prop} : Abides D x Q ↔ Observes D.protocol x Q :=
  Action.within_iff

namespace Action

/-- Running an action under a discipline keeps what every admitted request keeps. -/
theorem run_within {σ : Type} {answer : Handler σ} {I : σ → Prop}
    (hI : ∀ r s, I s → D.admits r → I (answer r s).2 ∧ ∀ x, (answer r s).1 = .returned x → D.answers r x)
    {x : Action α} {Q : α → Prop} (hx : x.Within D Q) {s : σ} (hs : I s) :
    I (x.run answer s).2 ∧ ∀ a, (x.run answer s).1 = .returned a → Q a :=
  run_follows (P := D.protocol) hI (within_iff.mp hx) hs

end Action

namespace Abides

variable {Q R : α → Prop}

theorem mono {x : ExceptT ε Action α} (h : Abides D x Q) (hQR : ∀ a, Q a → R a) : Abides D x R :=
  abides_iff.mpr ((abides_iff.mp h).mono hQR)

theorem pure {a : α} (h : Q a) : Abides D (Pure.pure a : ExceptT ε Action α) Q :=
  abides_iff.mpr (Observes.pure h)

theorem bind {x : ExceptT ε Action α} {f : α → ExceptT ε Action β} {R : β → Prop} (h : Abides D x Q)
    (hf : ∀ a, Q a → Abides D (f a) R) : Abides D (x >>= f) R :=
  abides_iff.mpr ((abides_iff.mp h).bind fun a ha => abides_iff.mp (hf a ha))

/-- An action that cannot fail, as one that can. -/
theorem lift {x : Action α} (h : x.Within D Q) : Abides D (liftM x : ExceptT ε Action α) Q :=
  abides_iff.mpr (Observes.lift (Action.within_iff.mp h))

/-- A failure of the cache on the way changes nothing about which requests are made. -/
theorem liftCache {x : CacheAction α} (h : Abides D x Q) : Abides D (CacheAction.lift x) Q :=
  abides_iff.mpr (abides_iff.mp h).liftCache

end Abides

end Gatehouse
