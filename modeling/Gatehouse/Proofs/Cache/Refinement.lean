import Gatehouse.Proofs.Cache.Expiring

/-!
# Engines that stand for the map

An engine is faithful when what can be seen of it at a time is enough to tell how it answers and what will be seen of
it afterwards. Over a faithful engine every run of the cache is answered as by the map with deadlines.
-/

namespace Gatehouse

open Json

/-! ## The terms of a run -/

/-- On which terms an engine is used: the lifetimes that may be put, and the spans by which the clocks may move. -/
structure Terms where
  lifetime : Clocks → Span → Prop
  advance : Span → Prop

/-- A call of an engine is on its terms. -/
def Terms.Admits (t : Terms) (clocks : Clocks) (c : EngineCall) : Prop :=
  ∀ key b d, c = .put key b (some d) → 0 < d.nanos ∧ t.lifetime clocks d

/-- A step of a run is on the terms of its engine. An expiration of zero stands for none. -/
def CacheStep.Meets (t : Terms) (clocks : Clocks) : CacheStep → Prop
  | call (CacheCall.put _ _ _ (some d)) => d.nanos ≠ 0 → t.lifetime clocks d
  | advance d => t.advance d
  | _ => True

/-- Every step of a run is on the terms of its engine. -/
def Terms.Met (t : Terms) : Clocks → List CacheStep → Prop
  | _, [] => True
  | clocks, e :: rest => e.Meets t clocks ∧ t.Met (e.clocks clocks) rest

variable {σ : Type} {t t' : Terms} {clocks : Clocks}

theorem Terms.met_append {steps : List CacheStep} {e : CacheStep} :
    t.Met clocks (steps ++ [e]) ↔ t.Met clocks steps ∧ e.Meets t (clocks.after steps) := by
  induction steps generalizing clocks with
  | nil => exact ⟨fun h => ⟨trivial, h.1⟩, fun h => ⟨h.2, trivial⟩⟩
  | cons e' rest ih =>
    unfold Clocks.after
    rw [List.cons_append, List.foldl_cons]
    exact (and_congr_right fun _ => ih).trans and_assoc.symm

/-! ## What can be seen of an engine -/

/-- What can be seen of an engine: whether it is open, and what is present in it at a time. It makes sense in states
that are sound. -/
structure View (σ : Type) where
  isOpen : σ → Bool
  contents : Clocks → σ → Contents
  Sound : Clocks → σ → Prop

/-- Answers and later contents of an engine are told by what can be seen of it. -/
structure Faithful (B : Backend σ) (t : Terms) (o : ScanOrder) (V : View σ) : Prop where
  closed : ∀ {clocks s} (c : EngineCall), V.Sound clocks s → V.isOpen s = false →
    B.perform clocks s c = (.returned (.error .engineClosed), s)
  replies : ∀ {clocks s} {c : EngineCall}, V.Sound clocks s → V.isOpen s = true → t.Admits clocks c →
    ∃ r, (B.perform clocks s c).1 = .returned r ∧ (V.contents clocks s).Replies o clocks.monotonic c r
  isOpen : ∀ {clocks s} {c : EngineCall}, V.Sound clocks s → V.isOpen s = true → t.Admits clocks c →
    V.isOpen (B.perform clocks s c).2 = decide (c ≠ .close)
  sound : ∀ {clocks s} {c : EngineCall}, V.Sound clocks s → V.isOpen s = true → t.Admits clocks c →
    V.Sound clocks (B.perform clocks s c).2
  contents : ∀ {clocks s} {c : EngineCall}, V.Sound clocks s → V.isOpen s = true → t.Admits clocks c → c ≠ .close →
    V.contents clocks (B.perform clocks s c).2 = (V.contents clocks s).after clocks.monotonic c
  advance : ∀ {clocks s} {d : Span}, V.Sound clocks s → t.advance d →
    V.Sound (clocks.advance d) s ∧
      V.contents (clocks.advance d) s = (V.contents clocks s).presentAt (clocks.advance d).monotonic
  maintain : ∀ {clocks s} {w : Maintenance}, V.Sound clocks s →
    V.Sound clocks (B.maintain clocks w s) ∧ V.isOpen (B.maintain clocks w s) = V.isOpen s ∧
      V.contents clocks (B.maintain clocks w s) = V.contents clocks s

/-! ## One call of the cache -/

/-- An expiration gives the lifetime of the engine, and the lifetime the deadline of the map. -/
theorem ExpiringMap.deadline_eq (now : Nat) (expiration : Option Span) :
    ExpiringMap.deadline now expiration = (Cache.lifetime expiration).map fun d => now + d.nanos := by
  cases expiration with
  | none => rfl
  | some d =>
    simp only [ExpiringMap.deadline, Cache.lifetime]
    by_cases h : d.nanos = 0
    · rw [if_pos h, Option.filter_some_neg (by simp [h])]
      rfl
    · rw [if_neg h, Option.filter_some_pos (by simp [h])]
      rfl

namespace CacheCall

variable {c : CacheCall}

theorem plan_of_unencodable {e : EncodeError} (h : c.unencodable? = some e) : c.plan = .error (.encoding e) := by
  cases c with
  | put α key value expiration =>
    cases hencode : Encode.encode value with
    | ok b =>
      simp only [unencodable?, hencode] at h
      cases h
    | error e' =>
      simp only [unencodable?, hencode] at h
      cases h
      simp only [plan, hencode]
  | _ => cases h

theorem exists_plan (h : c.unencodable? = none) : ∃ p, c.plan = .ok p := by
  cases c with
  | put α key value expiration =>
    cases hencode : Encode.encode value with
    | ok b => exact ⟨⟨.put key b (Cache.lifetime expiration), id⟩, by simp only [plan, hencode]⟩
    | error e =>
      simp only [unencodable?, hencode] at h
      cases h
  | _ => exact ⟨_, rfl⟩

variable {e : EngineCall}

/-- A value is put in its stored form. -/
theorem plan_put_ok {α : Type} [Encode α] {key : String} {value : α} {expiration : Option Span}
    {p : (e : EngineCall) × (Except CacheError e.Reply → Except CacheError Unit)}
    (h : (put α key value expiration).plan = .ok p) :
    ∃ b, Encode.encode value = .ok b ∧ p = ⟨.put key b (Cache.lifetime expiration), id⟩ := by
  cases hencode : Encode.encode value with
  | ok b =>
    simp only [plan, hencode] at h
    exact ⟨b, rfl, (Except.ok.inj h).symm⟩
  | error e =>
    simp only [plan, hencode] at h
    cases h

variable {read : Except CacheError e.Reply → Except CacheError c.Reply}

/-- The call that is planned for a call on the terms is on the terms. -/
theorem admits_of_plan (h : c.plan = .ok ⟨e, read⟩) (hc : (CacheStep.call c).Meets t clocks) : t.Admits clocks e := by
  intro key b d heq
  subst heq
  cases c with
  | put α key' value expiration =>
    obtain ⟨b', -, hp⟩ := plan_put_ok h
    injection hp with hcall
    injection hcall with _ _ hlife
    obtain ⟨hd, hpos⟩ := Option.filter_eq_some_iff.mp hlife.symm
    subst hd
    have hne : d.nanos ≠ 0 := of_decide_eq_true hpos
    exact ⟨Nat.pos_of_ne_zero hne, hc hne⟩
  | _ => cases h

/-- A failed call fails, whatever it was to read. -/
theorem read_error (h : c.plan = .ok ⟨e, read⟩) (error : CacheError) : read (.error error) = .error error := by
  cases c with
  | put α key value expiration =>
    obtain ⟨b, -, hp⟩ := plan_put_ok h
    cases hp
    rfl
  | _ =>
    cases h
    rfl

end CacheCall

namespace ExpiringMap

variable {m : ExpiringMap} {now : Nat} {o : ScanOrder} {c : CacheCall} {e : EngineCall}
  {read : Except CacheError e.Reply → Except CacheError c.Reply}

/-- What an engine with the contents of the map replies is read as what the map replies. -/
theorem replies_read (h : c.plan = .ok ⟨e, read⟩) {r : Except CacheError e.Reply}
    (hr : (m.slots.presentAt now).Replies o now e r) : m.Replies o now c (read r) := by
  cases c with
  | put α key value expiration =>
    obtain ⟨b, -, hp⟩ := CacheCall.plan_put_ok h
    cases hp
    exact hr
  | get α key =>
    cases h
    obtain rfl := hr
    simp only [ExpiringMap.Replies, present?]
    cases m.slots.presentAt now key <;> rfl
  | values α stem =>
    cases h
    obtain ⟨l, hl, rfl⟩ := hr
    exact ⟨l, hl, rfl⟩
  | items α stem =>
    cases h
    obtain ⟨l, hl, rfl⟩ := hr
    exact ⟨l, hl, rfl⟩
  | _ =>
    cases h
    exact hr

/-- A call whose value has no stored form leaves the map as it is. -/
theorem apply_of_unencodable {cause : EncodeError} (h : c.unencodable? = some cause) :
    m.apply clocks (.call c) = m := by
  cases c with
  | put α key value expiration =>
    cases hencode : Encode.encode value with
    | ok b =>
      simp only [CacheCall.unencodable?, hencode] at h
      cases h
    | error e => simp [apply, update, hencode]
  | _ => cases h

/-- A call closes the map exactly when the engine is closed. -/
theorem closed_update (m : ExpiringMap) (now : Nat) (h : c.plan = .ok ⟨e, read⟩) :
    (m.update now c).closed = (m.closed || decide (e = .close)) := by
  cases c with
  | put α key value expiration =>
    obtain ⟨b, hencode, hp⟩ := CacheCall.plan_put_ok h
    cases hp
    simp [update, hencode]
  | _ =>
    cases h
    simp [update]

/-- What is present in the map after a call is what is left in an engine with its contents. -/
theorem presentAt_update (h : c.plan = .ok ⟨e, read⟩) (hc : t.Admits clocks e) :
    (m.update clocks.monotonic c).slots.presentAt clocks.monotonic =
      (m.slots.presentAt clocks.monotonic).after clocks.monotonic e := by
  rw [← Contents.presentAt_after _ fun key b d heq => (hc key b d heq).1]
  cases c with
  | put α key value expiration =>
    obtain ⟨b, hencode, hp⟩ := CacheCall.plan_put_ok h
    cases hp
    simp only [update, hencode, deadline_eq]
    rfl
  | _ =>
    cases h
    rfl

end ExpiringMap

/-! ## Runs -/

namespace Faithful

variable {B : Backend σ} {o : ScanOrder} {V : View σ} {s : σ} {m : ExpiringMap} {c : CacheCall}

/-- An engine shows what is present in the map, as long as the map is open. -/
structure Shows (V : View σ) (clocks : Clocks) (s : σ) (m : ExpiringMap) : Prop where
  sound : V.Sound clocks s
  isOpen : V.isOpen s = !m.closed
  contents : m.closed = false → V.contents clocks s = m.slots.presentAt clocks.monotonic

/-- A call of the cache is answered as by the map. -/
theorem answers (h : Faithful B t o V) (hs : Shows V clocks s m) (hc : (CacheStep.call c).Meets t clocks) :
    ∃ r, (B.run clocks s c).1 = .returned r ∧ m.Answers o clocks.monotonic c r := by
  rw [B.run_eq]
  unfold ExpiringMap.Answers
  cases hcode : c.unencodable? with
  | some e =>
    rw [CacheCall.plan_of_unencodable hcode]
    exact ⟨_, rfl, rfl⟩
  | none =>
    obtain ⟨⟨e, read⟩, hplan⟩ := CacheCall.exists_plan hcode
    rw [hplan]
    cases hclosed : m.closed with
    | true =>
      have hshut : V.isOpen s = false := by rw [hs.isOpen, hclosed]; rfl
      refine ⟨read (.error .engineClosed), ?_, CacheCall.read_error hplan _⟩
      simp only [h.closed e hs.sound hshut, Outcome.map]
    | false =>
      have hopen : V.isOpen s = true := by rw [hs.isOpen, hclosed]; rfl
      obtain ⟨r, hr, hreplies⟩ := h.replies hs.sound hopen (CacheCall.admits_of_plan hplan hc)
      rw [hs.contents hclosed] at hreplies
      refine ⟨read r, ?_, ExpiringMap.replies_read hplan hreplies⟩
      simp only [hr, Outcome.map]

/-- A call of the cache leaves the engine showing what the map has become. -/
theorem shows_call (h : Faithful B t o V) (hs : Shows V clocks s m) (hc : (CacheStep.call c).Meets t clocks) :
    Shows V clocks (B.run clocks s c).2 (m.apply clocks (.call c)) := by
  rw [B.run_eq]
  cases hcode : c.unencodable? with
  | some e =>
    rw [CacheCall.plan_of_unencodable hcode]
    rw [ExpiringMap.apply_of_unencodable hcode]
    exact hs
  | none =>
    obtain ⟨⟨e, read⟩, hplan⟩ := CacheCall.exists_plan hcode
    have hadmits := CacheCall.admits_of_plan hplan hc
    rw [hplan]
    cases hclosed : m.closed with
    | true =>
      have hshut : V.isOpen s = false := by rw [hs.isOpen, hclosed]; rfl
      simp only [h.closed e hs.sound hshut, ExpiringMap.apply, hclosed, if_true]
      exact hs
    | false =>
      have hopen : V.isOpen s = true := by rw [hs.isOpen, hclosed]; rfl
      have happly : m.apply clocks (.call c) = m.update clocks.monotonic c := by simp [ExpiringMap.apply, hclosed]
      have hclose := ExpiringMap.closed_update m clocks.monotonic hplan
      rw [hclosed, Bool.false_or] at hclose
      rw [happly]
      refine ⟨h.sound hs.sound hopen hadmits, ?_, fun hstill => ?_⟩
      · rw [h.isOpen hs.sound hopen hadmits, hclose]
        simp
      · have hne : e ≠ .close := by
          rw [hclose] at hstill
          exact of_decide_eq_false hstill
        rw [h.contents hs.sound hopen hadmits hne, hs.contents hclosed, ExpiringMap.presentAt_update hplan hadmits]

/-- Every step leaves the engine showing what the map has become. -/
theorem shows_apply (h : Faithful B t o V) (hs : Shows V clocks s m) {e : CacheStep} (he : e.Meets t clocks) :
    Shows V (e.clocks clocks) (B.apply clocks s e) (m.apply clocks e) := by
  cases e with
  | call c => exact h.shows_call hs he
  | advance d =>
    obtain ⟨hsound, hcontents⟩ := h.advance hs.sound he
    refine ⟨hsound, hs.isOpen, ?_⟩
    intro hopen
    refine hcontents.trans ?_
    rw [hs.contents hopen]
    exact Contents.presentAt_presentAt _ (Nat.le_add_right _ _)
  | maintain w =>
    obtain ⟨hsound, hopen, hcontents⟩ := h.maintain (w := w) hs.sound
    exact ⟨hsound, hopen.trans hs.isOpen, fun hstill => hcontents.trans (hs.contents hstill)⟩

/-- Every run leaves the engine showing what the map has become. -/
theorem shows_after (h : Faithful B t o V) (hs : Shows V clocks s m) {steps : List CacheStep}
    (hsteps : t.Met clocks steps) :
    Shows V (clocks.after steps) (B.after clocks s steps) (m.after clocks steps) := by
  induction steps generalizing clocks s m with
  | nil => exact hs
  | cons e rest ih => exact ih (h.shows_apply hs hsteps.1) hsteps.2

/-- After every run a call of the cache is answered as by the map. -/
theorem answers_after (h : Faithful B t o V) (hs : Shows V clocks s m) {steps : List CacheStep}
    (hsteps : t.Met clocks (steps ++ [.call c])) :
    ∃ r, (B.run (clocks.after steps) (B.after clocks s steps) c).1 = .returned r ∧
      (m.after clocks steps).Answers o (clocks.after steps).monotonic c r := by
  obtain ⟨hrun, hcall⟩ := Terms.met_append.mp hsteps
  exact h.answers (h.shows_after hs hrun) hcall

end Faithful

end Gatehouse
