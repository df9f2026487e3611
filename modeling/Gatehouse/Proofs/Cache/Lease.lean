import Gatehouse.Proofs.Cache.Live
import Gatehouse.Proofs.Cache.Millis

/-!
# How long entries stay

What is put for a lifetime is to go at a reading of one of the clocks. As long as nobody writes its key again, whatever
else is asked of the cache and however the clocks move on, whether it is still there is told by that reading alone.
-/

namespace Gatehouse

/-! ## Values put for a lifetime -/

/-- A value that is put under a key, to live for a time. -/
structure Deposit : Type 1 where
  {α : Type}
  [encode : Json.Encode α]
  key : String
  value : α
  lifetime : Span

attribute [instance] Deposit.encode

/-- The call that puts a value for its lifetime. -/
def Deposit.call (p : Deposit) : CacheCall := .put p.α p.key p.value (some p.lifetime)

/-- When something is to go. -/
inductive Expiry where
  /-- At a reading of the forward clock. -/
  | forward (nanos : Nat)
  /-- At a number of milliseconds since 1 January 1970. -/
  | wall (millis : Nat)

/-- Whether the time to go is still to come. -/
def Expiry.isAhead (clocks : Clocks) : Expiry → Bool
  | forward nanos => clocks.monotonic < nanos
  | wall millis => clocks.unixMillis < millis

/-! ## Runs that leave a key alone -/

/-- A call of the cache that neither writes nor removes what is under a key, and does not end the cache. -/
def CacheCall.Spares (key : String) : CacheCall → Prop
  | put _ key' _ _ | delete key' | take key' => key' ≠ key
  | flush | close => False
  | _ => True

/-- A step of a run that neither writes nor removes what is under a key, and does not end the cache. -/
def CacheStep.Spares (key : String) : CacheStep → Prop
  | call c => c.Spares key
  | _ => True

/-- How far a step moves the clocks. -/
def CacheStep.span : CacheStep → Span
  | advance d => d
  | _ => Span.zero

/-- How far the clocks move in a run. -/
def elapsed (steps : List CacheStep) : Span := ⟨steps.foldr (fun e n => e.span.nanos + n) 0⟩

theorem CacheCall.outside_of_spares {c : CacheCall} {key : String} {e : EngineCall}
    {read : Except CacheError e.Reply → Except CacheError c.Reply} (h : c.Spares key) (hplan : c.plan = .ok ⟨e, read⟩) :
    Memory.Outside (· = key) e := by
  cases c with
  | put α key' value expiration =>
    obtain ⟨b, -, hp⟩ := plan_put_ok hplan
    cases hp
    exact h
  | _ =>
    cases hplan
    exact h

theorem Clocks.after_eq (clocks : Clocks) (steps : List CacheStep) :
    clocks.after steps = clocks.advance (elapsed steps) := by
  have hstill (clocks : Clocks) : clocks.advance Span.zero = clocks := by
    simp [Clocks.advance, Span.zero]
  have htwice (clocks : Clocks) (d d' : Span) :
      (clocks.advance d).advance d' = clocks.advance ⟨d.nanos + d'.nanos⟩ := by
    simp [Clocks.advance, Int.add_assoc, Nat.add_assoc]
  induction steps generalizing clocks with
  | nil => exact (hstill clocks).symm
  | cons e rest ih =>
    have hstep : e.clocks clocks = clocks.advance e.span := by
      cases e with
      | advance d => rfl
      | _ => exact (hstill clocks).symm
    change (e.clocks clocks).after rest = _
    rw [ih, hstep, htwice]
    rfl

/-! ## What the cache takes and shows -/

namespace Backend

variable {σ : Type} (B : Backend σ) (clocks : Clocks)

/-- The cache takes a value that is put for its lifetime. -/
def Accepts (s : σ) (p : Deposit) : Prop := (B.run clocks s p.call).1 = .returned (.ok ())

/-- What the cache answers when it is asked for a value that was put, after a run. -/
def shows (s : σ) (p : Deposit) (steps : List CacheStep) : Outcome (Except CacheError Bool) :=
  (B.run (clocks.after steps) (B.after clocks s (.call p.call :: steps)) (.has p.key)).1

/-- One value is there whenever another one is, both put at the same time, at every later time at which both have been
left alone. -/
def Outlives (s : σ) (p : Deposit) (s' : σ) (p' : Deposit) : Prop :=
  ∀ steps steps' : List CacheStep, (∀ e ∈ steps, e.Spares p.key) → (∀ e ∈ steps', e.Spares p'.key) →
    elapsed steps = elapsed steps' → B.shows clocks s' p' steps' = .returned (.ok true) →
    B.shows clocks s p steps = .returned (.ok true)

variable {B clocks} {s : σ} {p : Deposit}

/-- A value is put in its stored form. -/
theorem run_call {b : Bytes} (hencode : Json.Encode.encode p.value = .ok b) (hpos : 0 < p.lifetime.nanos) :
    B.run clocks s p.call = B.perform clocks s (.put p.key b (some p.lifetime)) := by
  have hlifetime : Cache.lifetime (some p.lifetime) = some p.lifetime :=
    Option.filter_some_pos (decide_eq_true (Nat.ne_of_gt hpos))
  have hrun : B.run clocks s p.call = B.perform clocks s (.put p.key b (Cache.lifetime (some p.lifetime))) := by
    simp only [run, Deposit.call, CacheCall.action, Cache.put, hencode]
    exact B.run_counted clocks s .put _
  rw [hlifetime] at hrun
  exact hrun

/-- A value that is taken has a stored form. -/
theorem Accepts.exists_run_call (h : B.Accepts clocks s p) (hpos : 0 < p.lifetime.nanos) :
    ∃ b, B.run clocks s p.call = B.perform clocks s (.put p.key b (some p.lifetime)) := by
  cases hencode : Json.Encode.encode p.value with
  | error e =>
    have hrun : B.run clocks s p.call = (.returned (.error (.encoding e)), s) := by
      simp only [run, Deposit.call, CacheCall.action, Cache.put, hencode]
      rfl
    unfold Accepts at h
    rw [hrun] at h
    cases h
  | ok b => exact ⟨b, run_call hencode hpos⟩

end Backend

/-! ## Keys that are left alone -/

/-- Under a condition on an engine the clocks tell whether a key is there, and the condition holds for as long as the
key is left alone. -/
structure Backend.Foretells {σ : Type} (B : Backend σ) (key : String) (there : Clocks → Bool)
    (P : Clocks → σ → Prop) : Prop where
  has : ∀ {clocks s}, P clocks s → (B.perform clocks s (.has key)).1 = .returned (.ok (there clocks))
  perform : ∀ {clocks s} {c : EngineCall}, P clocks s → Memory.Outside (· = key) c →
    P clocks (B.perform clocks s c).2
  advance : ∀ {clocks s} (d : Span), P clocks s → P (clocks.advance d) s
  maintain : ∀ {clocks s} (w : Maintenance), P clocks s → P clocks (B.maintain clocks w s)

namespace Backend.Foretells

variable {σ : Type} {B : Backend σ} {clocks : Clocks} {s : σ} {key : String} {there : Clocks → Bool}
  {P : Clocks → σ → Prop} {steps : List CacheStep}

/-- A step that leaves the key alone keeps the condition. -/
theorem apply (h : B.Foretells key there P) (hs : P clocks s) {e : CacheStep} (he : e.Spares key) :
    P (e.clocks clocks) (B.apply clocks s e) := by
  cases e with
  | advance d => exact h.advance d hs
  | maintain w => exact h.maintain w hs
  | call c =>
    change P clocks (B.run clocks s c).2
    rw [B.run_eq]
    cases hplan : c.plan with
    | error e => exact hs
    | ok planned => exact h.perform hs (CacheCall.outside_of_spares he hplan)

/-- A run that leaves the key alone keeps the condition. -/
theorem after (h : B.Foretells key there P) (hs : P clocks s) (hsteps : ∀ e ∈ steps, e.Spares key) :
    P (clocks.after steps) (B.after clocks s steps) := by
  induction steps generalizing clocks s with
  | nil => exact hs
  | cons e rest ih =>
    exact ih (h.apply hs (hsteps e List.mem_cons_self)) fun e he => hsteps e (List.mem_cons_of_mem _ he)

/-- What the cache answers after such a run is told by the clocks. -/
theorem has_after (h : B.Foretells key there P) (hs : P clocks s) (hsteps : ∀ e ∈ steps, e.Spares key) :
    (B.run (clocks.after steps) (B.after clocks s steps) (.has key)).1 =
      .returned (.ok (there (clocks.after steps))) := by
  rw [B.run_eq]
  change (B.perform (clocks.after steps) (B.after clocks s steps) (.has key)).1.map id = _
  rw [h.has (h.after hs hsteps)]
  rfl

end Backend.Foretells

/-! ## Engines that keep what is put until it is to go -/

/-- A kind of states of an engine in which what is put for a lifetime is there until it is to go. -/
structure Leasing {σ : Type} (B : Backend σ) where
  Kind : σ → Prop
  /-- When a lifetime that starts now is over. -/
  expiry : Clocks → Span → Expiry
  /-- Whether anything is under the key is told by the time at which it is to go. -/
  Holds : Clocks → σ → String → Expiry → Prop
  put : ∀ {clocks s b d} (key : String), Kind s → (B.perform clocks s (.put key b (some d))).1 = .returned (.ok ()) →
    Holds clocks (B.perform clocks s (.put key b (some d))).2 key (expiry clocks d)
  has : ∀ {clocks s key x}, Holds clocks s key x →
    (B.perform clocks s (.has key)).1 = .returned (.ok (x.isAhead clocks))
  perform : ∀ {clocks s key x} {c : EngineCall}, Holds clocks s key x → Memory.Outside (· = key) c →
    Holds clocks (B.perform clocks s c).2 key x
  advance : ∀ {clocks s key x} (d : Span), Holds clocks s key x → Holds (clocks.advance d) s key x
  maintain : ∀ {clocks s key x} (w : Maintenance), Holds clocks s key x → Holds clocks (B.maintain clocks w s) key x

namespace Leasing

variable {σ : Type} {B : Backend σ} (L : Leasing B) {clocks : Clocks} {s s' : σ} {p p' : Deposit}
  {steps : List CacheStep}

theorem foretells (key : String) (x : Expiry) :
    B.Foretells key (fun clocks => x.isAhead clocks) fun clocks s => L.Holds clocks s key x :=
  ⟨L.has, L.perform, L.advance, L.maintain⟩

/-- A value that is put for a lifetime is there just until it is to go. -/
theorem shows_eq (hs : L.Kind s) (hput : B.Accepts clocks s p) (hpos : 0 < p.lifetime.nanos)
    (hsteps : ∀ e ∈ steps, e.Spares p.key) :
    B.shows clocks s p steps =
      .returned (.ok ((L.expiry clocks p.lifetime).isAhead (clocks.advance (elapsed steps)))) := by
  obtain ⟨b, hrun⟩ := hput.exists_run_call hpos
  have hanswer := hput
  unfold Backend.Accepts at hanswer
  rw [hrun] at hanswer
  have hholds := L.put p.key hs hanswer
  rw [← hrun] at hholds
  rw [← Clocks.after_eq]
  exact (L.foretells p.key _).has_after hholds hsteps

/-- One value outlives another one just if it is still to go at every time at which the other one is. -/
theorem outlives_iff (hs : L.Kind s) (hs' : L.Kind s') (hput : B.Accepts clocks s p) (hput' : B.Accepts clocks s' p')
    (hpos : 0 < p.lifetime.nanos) (hpos' : 0 < p'.lifetime.nanos) :
    B.Outlives clocks s p s' p' ↔
      ∀ d, (L.expiry clocks p'.lifetime).isAhead (clocks.advance d) = true →
        (L.expiry clocks p.lifetime).isAhead (clocks.advance d) = true := by
  constructor
  · intro h d hahead
    have hspares (key : String) : ∀ e ∈ [CacheStep.advance d], e.Spares key := List.forall_mem_singleton.mpr trivial
    have hd : elapsed [CacheStep.advance d] = d := rfl
    have hshows' := L.shows_eq hs' hput' hpos' (hspares p'.key)
    rw [hd, hahead] at hshows'
    have hshows := h _ _ (hspares p.key) (hspares p'.key) rfl hshows'
    rw [L.shows_eq hs hput hpos (hspares p.key), hd] at hshows
    exact Except.ok.inj (Outcome.returned.inj hshows)
  · intro h steps steps' hsteps hsteps' heq hshows'
    rw [L.shows_eq hs' hput' hpos' hsteps', ← heq] at hshows'
    rw [L.shows_eq hs hput hpos hsteps, h _ (Except.ok.inj (Outcome.returned.inj hshows'))]

end Leasing

end Gatehouse
