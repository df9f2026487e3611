import Gatehouse.Proofs.Revocation.Durability
import Gatehouse.Proofs.Revocation.FirstTime

/-!
# Revocations that come to an end

A marker is to live until the margin after the expiry of its token. Where that instant does not exist, or an open engine
in memory has no deadline for it, the marker cannot be written, and what was to write it is abandoned: a revocation
after it has saved the record, and a start. Nothing else keeps them from an end (`ends_iff_markable`).
-/

namespace Gatehouse

variable {ε α β : Type}

namespace Service

variable {s s' s'' : Service}

/-- Whether the engine is one in memory that is open. -/
def OpenMemory (s : Service) : Prop := ∃ m, s.engine = .memory m ∧ m.closed = false

/-- Whether the marker of a record can be written: the margin after its expiry is an instant that exists, and an open
engine in memory has a deadline for it. -/
structure Markable (s : Service) (r : TokenRecord) : Prop where
  margin : ∀ t ∈ r.expiresAt, (t.add? Revocation.margin).isSome = true
  deadline : s.OpenMemory → (Revocation.markerDeadline? r.expiresAt s.clocks).isSome = true

/-- Whether an action comes to an end. -/
def Ends (s : Service) (x : Action α) : Prop := ∃ a, (s.run x).1 = .returned a

/-- Whether a call of the engine or of the store fails as an action runs. -/
def Fails (s : Service) (x : Action α) : Prop := ∃ e ∈ s.exchanges x, e.failure? ≠ none

/-! ## What decides about the end of an action -/

/-- The end of an action hinges on a condition: under the condition the action comes to an end, it succeeds only under
the condition, and it ends with a failure only if a call failed. -/
structure Hinges (s : Service) (x : ServiceAction α) (C : Prop) : Prop where
  ends : C → s.Ends x.run
  needed : ∀ a, (s.run x.run).1 = .returned (.ok a) → C
  failed : ∀ cause, (s.run x.run).1 = .returned (.error cause) → s.Fails x.run

namespace Hinges

variable {C D : Prop}

/-- An action that passes over no failure ends under its condition, and when a call fails. -/
theorem ends_iff {x : ServiceAction α} (h : s.Hinges x C) (hx : Strict x) : s.Ends x.run ↔ C ∨ s.Fails x.run := by
  constructor
  · rintro ⟨r, hr⟩
    cases r with
    | ok a => exact .inl (h.needed a hr)
    | error cause => exact .inr (h.failed cause hr)
  · rintro (hC | ⟨e, he, hfailure⟩)
    · exact h.ends hC
    · obtain ⟨cause, hcause⟩ := Option.ne_none_iff_exists'.mp hfailure
      exact ⟨_, hx s e he cause hcause⟩

theorem of_iff {x : ServiceAction α} (h : s.Hinges x C) (hC : C ↔ D) : s.Hinges x D :=
  ⟨fun hD => h.ends (hC.mpr hD), fun a ha => hC.mp (h.needed a ha), h.failed⟩

theorem pure (a : α) : s.Hinges (Pure.pure a) True :=
  ⟨fun _ => ⟨_, rfl⟩, fun _ _ => trivial, fun _ h => nomatch h⟩

theorem bind {x : ServiceAction α} {f : α → ServiceAction β} (h : s.Hinges x C)
    (hf : ∀ a s', s.run x.run = (.returned (.ok a), s') → s'.Hinges (f a) D) : s.Hinges (x >>= f) (C ∧ D) := by
  refine ⟨fun ⟨hC, hD⟩ => ?_, fun b hb => ?_, fun cause hcause => ?_⟩
  · obtain ⟨r, hr⟩ := h.ends hC
    unfold Ends
    rw [run_bind]
    cases r with
    | error cause => exact ⟨.error cause, by rw [show s.run x.run = (_, _) from Prod.ext hr rfl]⟩
    | ok a =>
      have hrun : s.run x.run = (.returned (.ok a), (s.run x.run).2) := Prod.ext hr rfl
      rw [hrun]
      exact (hf a _ hrun).ends hD
  · obtain ⟨a, s₁, hx, hfa⟩ := run_bind_ok (Prod.ext hb rfl)
    exact ⟨h.needed a (congrArg Prod.fst hx), (hf a s₁ hx).needed b (congrArg Prod.fst hfa)⟩
  · rw [run_bind] at hcause
    unfold Fails
    rw [exchanges_bind]
    split at hcause
    · rename_i a s₁ heq
      obtain ⟨e, he, hfailure⟩ := (hf a s₁ heq).failed cause hcause
      exact ⟨e, by rw [heq]; exact List.mem_append_right _ he, hfailure⟩
    · rename_i e s₁ heq
      obtain ⟨e, he, hfailure⟩ := h.failed e (congrArg Prod.fst heq)
      exact ⟨e, List.mem_append_left _ he, hfailure⟩
    · cases hcause

theorem ofOutcome (o : Outcome α) : s.Hinges (liftM (Action.ofOutcome o)) (o ≠ .abandoned) := by
  cases o with
  | returned a => exact ⟨fun _ => ⟨_, rfl⟩, fun _ _ => nofun, fun _ h => nomatch h⟩
  | abandoned => exact ⟨fun h => absurd rfl h, fun _ h => (nomatch h), fun _ h => (nomatch h)⟩

theorem clock : s.Hinges (liftM Action.clock : ServiceAction Instant) True :=
  ⟨fun _ => ⟨_, rfl⟩, fun _ _ => trivial, fun _ h => nomatch h⟩

theorem record (event : Event) : s.Hinges (liftM (Action.record event) : ServiceAction Unit) True :=
  ⟨fun _ => ⟨_, rfl⟩, fun _ _ => trivial, fun _ h => nomatch h⟩

/-- A call of the store always comes to an end. -/
theorem store (c : StoreCall) : s.Hinges (Revocation.store c) True := by
  have hrun : s.run (Revocation.store c).run = (.returned (s.callStore c).1, (s.callStore c).2) :=
    run_request (.store c)
  refine ⟨fun _ => ⟨_, congrArg Prod.fst hrun⟩, fun _ _ => trivial, fun cause hcause => ?_⟩
  rw [hrun] at hcause
  refine ⟨⟨.store c, (s.callStore c).1⟩, List.mem_singleton.mpr rfl, ?_⟩
  rw [Outcome.returned.inj hcause]
  exact nofun

/-- A counted call of the engine hinges on what the call hinges on. -/
theorem counted {op : Operation} {c : EngineCall} (hends : C → ∃ r, (s.callEngine c).1 = .returned r)
    (hneeded : ∀ a, (s.callEngine c).1 = .returned (.ok a) → C) :
    s.Hinges (CacheAction.lift (Cache.counted op c)) C := by
  have hrun : (s.run (CacheAction.lift (Cache.counted op c)).run).1 =
      (s.callEngine c).1.map fun r => r.mapError ServiceError.cache := by
    rw [run_liftCache, run_counted]
    obtain ⟨o, s₁⟩ := s.callEngine c
    cases o <;> rfl
  refine ⟨fun hC => ?_, fun a ha => ?_, fun cause hcause => ?_⟩
  · obtain ⟨r, hr⟩ := hends hC
    exact ⟨_, by rw [hrun, hr]; rfl⟩
  · exact hneeded a (run_counted_ok (run_liftCache_ok (Prod.ext ha rfl))).1
  · unfold Fails
    rw [exchanges_liftCache, exchanges_counted]
    rw [hrun] at hcause
    cases hanswer : (s.callEngine c).1 with
    | abandoned =>
      rw [hanswer] at hcause
      cases hcause
    | returned r =>
      rw [hanswer] at hcause
      cases r with
      | ok a => cases hcause
      | error e => exact ⟨_, List.mem_cons_self, nofun⟩

/-- Each of some actions is run in its turn, as long as those before it succeed. They keep a condition, under which each
of them hinges on a condition of its own. -/
theorem forM {I : Service → Prop} {D : α → Prop} {f : α → ServiceAction PUnit} {xs : List α}
    (hkeep : ∀ a ∈ xs, ∀ s s', I s → s.run (f a).run = (.returned (.ok ()), s') → I s')
    (hf : ∀ a ∈ xs, ∀ s, I s → s.Hinges (f a) (D a)) (hs : I s) : s.Hinges (xs.forM f) (∀ a ∈ xs, D a) := by
  induction xs generalizing s with
  | nil => exact (pure PUnit.unit).of_iff (by simp)
  | cons a xs ih =>
    change s.Hinges (f a >>= fun _ => xs.forM f) _
    refine ((hf a List.mem_cons_self s hs).bind fun _ s₁ hrun => ?_).of_iff List.forall_mem_cons.symm
    exact ih (fun b hb => hkeep b (List.mem_cons_of_mem _ hb)) (fun b hb => hf b (List.mem_cons_of_mem _ hb))
      (hkeep a List.mem_cons_self s s₁ hs hrun)

theorem mapM {I : Service → Prop} {D : α → Prop} {f : α → ServiceAction β} {xs : List α}
    (hkeep : ∀ a ∈ xs, ∀ s b s', I s → s.run (f a).run = (.returned (.ok b), s') → I s')
    (hf : ∀ a ∈ xs, ∀ s, I s → s.Hinges (f a) (D a)) (hs : I s) : s.Hinges (xs.mapM f) (∀ a ∈ xs, D a) := by
  induction xs generalizing s with
  | nil => exact (pure []).of_iff (by simp)
  | cons a xs ih =>
    rw [List.mapM_cons]
    refine ((hf a List.mem_cons_self s hs).bind fun b s₁ hrun => ?_).of_iff List.forall_mem_cons.symm
    have hrest := ih (fun b hb => hkeep b (List.mem_cons_of_mem _ hb)) (fun b hb => hf b (List.mem_cons_of_mem _ hb))
      (hkeep a List.mem_cons_self s b s₁ hs hrun)
    exact (hrest.bind fun bs _ _ => pure (b :: bs)).of_iff (iff_of_eq (and_true _))

end Hinges

/-! ## Marks -/

/-- Nothing has changed that decides about marks. -/
structure Continues (s s' : Service) : Prop where
  ledger_eq : s'.ledger = s.ledger
  openMemory_iff : s'.OpenMemory ↔ s.OpenMemory

theorem Continues.refl (s : Service) : s.Continues s := ⟨rfl, Iff.rfl⟩

theorem Continues.ledger_of (hclocks : s'.clocks = s.clocks) (hstore : s'.store = s.store) : s'.ledger = s.ledger := by
  unfold ledger
  rw [hclocks, hstore]

theorem Continues.clocks_eq (h : s.Continues s') : s'.clocks = s.clocks := congrArg Ledger.clocks h.ledger_eq

theorem Continues.store_eq (h : s.Continues s') : s'.store = s.store := congrArg Ledger.store h.ledger_eq

/-- Whether the marker of a record can be written depends on the clocks, the engine and the expiry alone. -/
theorem markable_congr {r r' : TokenRecord} (hclocks : s'.clocks = s.clocks) (hopen : s'.OpenMemory ↔ s.OpenMemory)
    (hexp : r'.expiresAt = r.expiresAt) : s'.Markable r' ↔ s.Markable r := by
  have hdeadline : (s'.OpenMemory → (Revocation.markerDeadline? r'.expiresAt s'.clocks).isSome = true) ↔
      (s.OpenMemory → (Revocation.markerDeadline? r.expiresAt s.clocks).isSome = true) := by
    rw [hopen, hclocks, hexp]
  constructor
  · exact fun h => ⟨hexp ▸ h.margin, hdeadline.mp h.deadline⟩
  · exact fun h => ⟨hexp ▸ h.margin, hdeadline.mpr h.deadline⟩

theorem Continues.markable_iff (h : s.Continues s') {r : TokenRecord} : s'.Markable r ↔ s.Markable r :=
  markable_congr h.clocks_eq h.openMemory_iff rfl

theorem Continues.trans (h : s.Continues s') (h' : s'.Continues s'') : s.Continues s'' :=
  ⟨h'.ledger_eq.trans h.ledger_eq, h'.openMemory_iff.trans h.openMemory_iff⟩

theorem openMemory_iff {m : Memory} (hm : s.engine = .memory m) : s.OpenMemory ↔ m.closed = false := by
  unfold OpenMemory
  rw [hm]
  exact ⟨fun ⟨m', hm', hopen⟩ => Engine.memory.inj hm' ▸ hopen, fun hopen => ⟨m, rfl, hopen⟩⟩

/-- Putting a value leaves an engine in memory as open as it was. -/
theorem continues_put (s : Service) (key : String) (b : Bytes) (lifetime : Option Span) :
    s.Continues (s.callEngine (.put key b lifetime)).2 := by
  refine ⟨Continues.ledger_of (s.callEngine_clocks _) (s.callEngine_store _), ?_⟩
  unfold callEngine
  split
  · exact Iff.rfl
  · cases hengine : s.engine with
    | memory m =>
      have hclosed : (m.perform s.clocks.monotonic (.put key b lifetime)).2.closed = m.closed := by
        unfold Memory.perform
        split
        · rfl
        · rw [Memory.closed_respond]
          exact Bool.or_false _
      rw [openMemory_iff hengine, ← hclosed]
      exact openMemory_iff rfl
    | embedded d =>
      unfold OpenMemory
      rw [hengine]
      exact iff_of_false (fun ⟨_, h, _⟩ => nomatch h) (fun ⟨_, h, _⟩ => nomatch h)
    | server r =>
      unfold OpenMemory
      rw [hengine]
      exact iff_of_false (fun ⟨_, h, _⟩ => nomatch h) (fun ⟨_, h, _⟩ => nomatch h)

end Service

namespace Revocation

variable {s s' : Service} {r : TokenRecord}

theorem continues_mark {now : Instant} (h : s.run (mark r now).run = (.returned (.ok ()), s')) : s.Continues s' := by
  obtain ⟨lifetime, s₁, h₁, h₂⟩ := Service.run_bind_ok h
  obtain ⟨-, rfl⟩ := Service.run_ofOutcome_ok (Service.run_lift_ok h₁)
  obtain ⟨-, rfl⟩ := Service.run_counted_ok (Service.run_liftCache_ok h₂)
  have hput := s₁.continues_put (Keys.revokedToken r.id) (Json.encode true) (Cache.lifetime lifetime)
  exact ⟨hput.ledger_eq, hput.openMemory_iff⟩

/-- Every engine answers the call that writes a marker, but for an open engine in memory that has no deadline for it. -/
theorem markerCall_ends {lifetime : Option Span}
    (hlife : markerLifetime r.expiresAt s.clocks.instant = .returned lifetime)
    (h : s.OpenMemory → (markerDeadline? r.expiresAt s.clocks).isSome = true) :
    ∃ a, (s.callEngine (markerCall r.id lifetime)).1 = .returned a := by
  unfold Service.callEngine
  split
  · exact ⟨_, rfl⟩
  · cases hengine : s.engine with
    | memory m =>
      cases hclosed : m.closed with
      | true =>
        refine ⟨.error .engineClosed, ?_⟩
        simp only [Engine.perform, Memory.perform, hclosed, if_true]
      | false =>
        obtain ⟨deadline, hdeadline⟩ := Option.isSome_iff_exists.mp (h ⟨m, hengine, hclosed⟩)
        refine ⟨.ok (), ?_⟩
        simp only [Engine.perform, Memory.perform_markerCall hclosed hlife, hdeadline]
    | embedded d => exact ⟨_, rfl⟩
    | server remote =>
      simp only [Engine.perform, Remote.perform]
      split <;> exact ⟨_, rfl⟩

/-- A marker that an open engine in memory has taken has a deadline. -/
theorem deadline_of_markerCall_ok {lifetime : Option Span} {a : (markerCall r.id lifetime).Reply}
    (hlife : markerLifetime r.expiresAt s.clocks.instant = .returned lifetime)
    (h : (s.callEngine (markerCall r.id lifetime)).1 = .returned (.ok a)) (hopen : s.OpenMemory) :
    (markerDeadline? r.expiresAt s.clocks).isSome = true := by
  obtain ⟨m, hm, hopen⟩ := hopen
  have hperform := (Service.callEngine_memory_ok hm h).1
  rw [Memory.perform_markerCall hopen hlife] at hperform
  cases hdeadline : markerDeadline? r.expiresAt s.clocks with
  | some deadline => rfl
  | none =>
    rw [hdeadline] at hperform
    cases hperform

theorem markerLifetime_ne_abandoned_iff (expiresAt : Option Instant) (now : Instant) :
    markerLifetime expiresAt now ≠ .abandoned ↔ ∀ t ∈ expiresAt, (t.add? margin).isSome = true := by
  cases expiresAt with
  | none => exact iff_of_true nofun fun _ h => nomatch h
  | some t =>
    simp only [Option.mem_def, Option.some.injEq, forall_eq', markerLifetime]
    cases t.add? margin with
    | none => exact iff_of_false (fun h => h rfl) Bool.false_ne_true
    | some deadline =>
      refine iff_of_true (fun h => ?_) rfl
      cases h

/-- Writing a marker hinges on whether it can be written. -/
theorem hinges_mark (s : Service) (r : TokenRecord) : s.Hinges (mark r s.clocks.instant) (s.Markable r) := by
  refine ((Service.Hinges.ofOutcome (markerLifetime r.expiresAt s.clocks.instant)).bind
    (D := s.OpenMemory → (markerDeadline? r.expiresAt s.clocks).isSome = true) fun lifetime s₁ hrun => ?_).of_iff ?_
  · obtain ⟨hlife, rfl⟩ := Service.run_ofOutcome_ok (Service.run_lift_ok hrun)
    exact Service.Hinges.counted (markerCall_ends hlife) fun a ha => deadline_of_markerCall_ok hlife ha
  · rw [markerLifetime_ne_abandoned_iff]
    exact ⟨fun ⟨hmargin, hdeadline⟩ => ⟨hmargin, hdeadline⟩, fun h => ⟨h.margin, h.deadline⟩⟩

theorem continues_revoked {kind : TokenKind} {now : Instant} {records : List TokenRecord}
    (h : s.run (store (.revoked kind now)).run = (.returned (.ok records), s')) :
    records = s.store.revoked kind now ∧ s.Continues s' := by
  obtain ⟨hrecords, hstore, hclocks, -⟩ := store_ok h
  obtain rfl : (s.callStore (.revoked kind now)).2 = s' :=
    (congrArg Prod.snd (Service.run_request (.store (.revoked kind now)))).symm.trans (congrArg Prod.snd h)
  refine ⟨hrecords, Service.Continues.ledger_of hclocks hstore, ?_⟩
  unfold Service.OpenMemory
  rw [s.callStore_engine]

theorem continues_marks {rs : List TokenRecord}
    (h : s.run (rs.forM fun r => mark r s.clocks.instant).run = (.returned (.ok ()), s')) : s.Continues s' := by
  induction rs generalizing s with
  | nil =>
    cases h
    exact .refl _
  | cons r rs ih =>
    obtain ⟨_, s₁, hmark, h⟩ := Service.run_bind_ok (x := mark r s.clocks.instant) h
    have hfirst := continues_mark hmark
    rw [← hfirst.clocks_eq] at h
    exact hfirst.trans (ih h)

theorem continues_restore {kind : TokenKind} {n : Nat}
    (h : s.run (restore s.clocks.instant kind).run = (.returned (.ok n), s')) : s.Continues s' := by
  obtain ⟨records, s₁, hstore, h⟩ := Service.run_bind_ok h
  obtain ⟨-, hfirst⟩ := continues_revoked hstore
  obtain ⟨_, s₂, hmarks, h⟩ := Service.run_bind_ok h
  cases h
  rw [← hfirst.clocks_eq] at hmarks
  exact hfirst.trans (continues_marks hmarks)

/-- Restoring a kind hinges on whether the markers of all its outstanding records can be written. -/
theorem hinges_restore (s : Service) (kind : TokenKind) :
    s.Hinges (restore s.clocks.instant kind) (∀ q ∈ s.store.revoked kind s.clocks.instant, s.Markable q) := by
  refine ((Service.Hinges.store _).bind (D := ∀ q ∈ s.store.revoked kind s.clocks.instant, s.Markable q)
    fun records s₁ hrun => ?_).of_iff (iff_of_eq (true_and _))
  obtain ⟨rfl, hfirst⟩ := continues_revoked hrun
  have hmarks : s₁.Hinges ((s.store.revoked kind s.clocks.instant).forM fun q => mark q s.clocks.instant)
      (∀ q ∈ s.store.revoked kind s.clocks.instant, s.Markable q) := by
    refine Service.Hinges.forM (I := s.Continues) (fun q _ s₂ s₃ hs₂ hmark => ?_) (fun q _ s₂ hs₂ => ?_) hfirst
    · exact hs₂.trans (continues_mark hmark)
    · rw [← hs₂.clocks_eq]
      exact (hinges_mark s₂ q).of_iff hs₂.markable_iff
  exact (hmarks.bind fun _ _ _ => Service.Hinges.pure _).of_iff (iff_of_eq (and_true _))

/-- Loading hinges on whether the markers of all outstanding records can be written. -/
theorem hinges_load (s : Service) :
    s.Hinges load (∀ q ∈ s.store.outstanding s.clocks.instant, s.Markable q) := by
  have hrestores : s.Hinges (TokenKind.all.mapM (restore s.clocks.instant))
      (∀ kind ∈ TokenKind.all, ∀ q ∈ s.store.revoked kind s.clocks.instant, s.Markable q) := by
    refine Service.Hinges.mapM (I := s.Continues) (fun kind _ s₁ n s₂ hs₁ hrun => ?_) (fun kind _ s₁ hs₁ => ?_)
      (.refl s)
    · rw [← hs₁.clocks_eq] at hrun
      exact hs₁.trans (continues_restore hrun)
    · rw [← hs₁.clocks_eq, ← hs₁.store_eq]
      exact (hinges_restore s₁ kind).of_iff (forall_congr' fun q => imp_congr_right fun _ => hs₁.markable_iff)
  have hall : (∀ kind ∈ TokenKind.all, ∀ q ∈ s.store.revoked kind s.clocks.instant, s.Markable q) ↔
      ∀ q ∈ s.store.outstanding s.clocks.instant, s.Markable q := by
    constructor
    · intro h q hq
      obtain ⟨kind, hkind, hq⟩ := List.mem_flatMap.mp (TokenStore.mem_flatMap_revoked.mpr hq)
      exact h kind hkind q hq
    · intro h kind hkind q hq
      exact h q (TokenStore.mem_flatMap_revoked.mp (List.mem_flatMap.mpr ⟨kind, hkind, hq⟩))
  refine (Service.Hinges.clock.bind (D := ∀ q ∈ s.store.outstanding s.clocks.instant, s.Markable q)
    fun now s₁ hrun => ?_).of_iff (iff_of_eq (true_and _))
  cases Service.run_lift_ok hrun
  refine (hrestores.bind (D := True) fun counts s₁ _ => ?_).of_iff ((iff_of_eq (and_true _)).trans hall)
  exact ((Service.Hinges.record _).bind fun _ _ _ => Service.Hinges.pure _).of_iff (iff_of_eq (and_true _))

/-! ## Revocations -/

theorem strict_conclude (r : TokenRecord) (now : Instant) : Strict (conclude r now) :=
  (strict_mark r now).bind fun _ => (Strict.record _).bind fun _ => Strict.pure r

theorem strict_save (r : TokenRecord) (now : Instant) : Strict (save r now) :=
  (Strict.store _).bind fun _ => strict_conclude _ now

/-- A revocation passes over no failure of the store or the cache. -/
theorem strict_revoke (r : TokenRecord) : Strict (revoke r) := by
  rw [revoke_eq]
  refine Strict.clock.bind fun now => ?_
  split
  · exact strict_conclude r now
  · exact strict_save r now

theorem hinges_conclude (s : Service) (r : TokenRecord) : s.Hinges (conclude r s.clocks.instant) (s.Markable r) := by
  refine ((hinges_mark s r).bind (D := True) fun _ s₁ _ => ?_).of_iff (iff_of_eq (and_true _))
  exact ((Service.Hinges.record _).bind fun _ _ _ => Service.Hinges.pure _).of_iff (iff_of_eq (and_true _))

theorem hinges_save (s : Service) (r : TokenRecord) : s.Hinges (save r s.clocks.instant) (s.Markable r) := by
  refine ((Service.Hinges.store _).bind fun _ s₁ hrun => ?_).of_iff (iff_of_eq (true_and _))
  obtain ⟨-, -, hclocks, -⟩ := store_ok hrun
  have hopen : s₁.OpenMemory ↔ s.OpenMemory := by
    obtain rfl := (congrArg Prod.snd (Service.run_request (.store _))).symm.trans (congrArg Prod.snd hrun)
    change (s.callStore _).2.OpenMemory ↔ _
    unfold Service.OpenMemory
    rw [s.callStore_engine]
  rw [← hclocks]
  exact (hinges_conclude s₁ _).of_iff (Service.markable_congr hclocks hopen rfl)

/-- A revocation hinges on whether the marker can be written. -/
theorem hinges_revoke (s : Service) (r : TokenRecord) : s.Hinges (revoke r) (s.Markable r) := by
  rw [revoke_eq]
  refine (Service.Hinges.clock.bind fun now s₁ hrun => ?_).of_iff (iff_of_eq (true_and _))
  cases Service.run_lift_ok hrun
  split
  · exact hinges_conclude s r
  · exact hinges_save s r

theorem conclude_keeps_store (s : Service) (r : TokenRecord) (now : Instant) :
    (s.run (conclude r now).run).2.store = s.store := by
  refine (Action.run_follows (I := fun s' : Service => s'.store = s.store) (fun request s' hs' hrequest => ?_)
    (conclude_follows r now) rfl).1
  refine ⟨?_, fun _ _ => trivial⟩
  cases request with
  | engine c => exact (s'.callEngine_store c).trans hs'
  | store c => exact absurd rfl (hrequest c)
  | _ => exact hs'

/-- A revocation that is abandoned has saved the record, unless that said already that it is revoked. -/
theorem store_of_abandoned (h : (s.run (revoke r).run).1 = .abandoned) :
    (s.run (revoke r).run).2.store =
      if r.isRevoked then s.store else s.store.save (r.revokedBy s.clocks.instant) := by
  have hclock : s.run (liftM Action.clock : ServiceAction Instant).run = (.returned (.ok s.clocks.instant), s) := rfl
  rw [revoke_eq, Service.run_bind_of_ok hclock] at h ⊢
  unfold TokenRecord.revokedBy
  cases hrev : r.isRevoked with
  | true => exact conclude_keeps_store s r _
  | false =>
    rw [hrev] at h
    change (s.run (save r s.clocks.instant).run).1 = _ at h
    change (s.run (save r s.clocks.instant).run).2.store = s.store.save { r with revokedAt := some s.clocks.instant }
    unfold save at h ⊢
    rw [Service.run_bind] at h ⊢
    split at h
    · rename_i u s₁ heq
      obtain ⟨-, hsaved, -⟩ := store_ok heq
      exact (conclude_keeps_store s₁ _ _).trans hsaved
    · cases h
    · rename_i s₁ heq
      have hanswered : (s.run (store (.save { r with revokedAt := some s.clocks.instant })).run).1 ≠ .abandoned := by
        rw [show s.run (store (.save _)).run = s.answer (.store _) from Service.run_request _]
        exact nofun
      exact absurd (congrArg Prod.fst heq) hanswered

/-! ## Clocks that show what exists -/

/-- The margin after an instant exists just if its second does. -/
theorem isSome_add_margin (t : Instant) : (t.add? margin).isSome = Instant.inRange (t.seconds + 3600) := by
  have hmargin : margin.nanos = 3600000000000 := rfl
  have hsum : ((t.nanos % 1000000000 + 3600000000000) / 1000000000 : Nat) = 3600 := by omega
  unfold Instant.add?
  rw [hmargin, if_neg (by omega)]
  simp only [hsum]
  cases hrange : Instant.inRange (t.seconds + 3600) <;> simp

/-- No two instants that exist are as far apart as twenty million million seconds. -/
theorem since_lt_of_add_margin {t last : Instant} {wall : Int}
    (hwall : Instant.inRange (Instant.ofUnixNanos wall).seconds = true) (h : t.add? margin = some last) :
    last.since (Instant.ofUnixNanos wall) < 20000000000000 * 1000000000 := by
  have hmargin : margin.nanos = 3600000000000 := rfl
  unfold Instant.add? at h
  rw [hmargin, if_neg (by omega)] at h
  simp only at h
  split at h
  · rename_i hrange
    cases h
    unfold Instant.inRange Instant.firstSecond Instant.lastSecond at hrange hwall
    simp only [Bool.and_eq_true, decide_eq_true_eq] at hrange hwall
    unfold Instant.since
    rw [Instant.unixNanos_ofUnixNanos]
    simp only [Instant.unixNanos]
    simp only [Instant.ofUnixNanos] at hwall
    omega
  · cases h

/-- While the wall clock shows an instant that exists, and the forward clock has run for less than nine million million
million seconds, the marker of a record can be written just if the margin after its expiry exists. -/
theorem markable_iff_inRange (hwall : Instant.inRange s.clocks.instant.seconds = true)
    (hforward : s.clocks.monotonic < 9000000000000000000 * 1000000000) :
    s.Markable r ↔ ∀ t ∈ r.expiresAt, Instant.inRange (t.seconds + 3600) = true := by
  constructor
  · intro h t ht
    rw [← isSome_add_margin]
    exact h.margin t ht
  · intro h
    have hmargin : ∀ t ∈ r.expiresAt, (t.add? margin).isSome = true := by
      intro t ht
      rw [isSome_add_margin]
      exact h t ht
    refine ⟨hmargin, fun _ => ?_⟩
    cases hexp : r.expiresAt with
    | none => rfl
    | some t =>
      obtain ⟨last, hlast⟩ := Option.isSome_iff_exists.mp (hmargin t hexp)
      simp only [markerDeadline?, markerLifetime, hlast]
      split
      · rfl
      · rename_i d hlife
        have hspan := Option.some.inj (Option.filter_eq_some_iff.mp hlife).1
        have hleft : last.since s.clocks.instant < 20000000000000 * 1000000000 := since_lt_of_add_margin hwall hlast
        have hshort : d.nanos < 20000000000000 * 1000000000 := by
          rw [← hspan]
          split
          · decide
          · change (last.since s.clocks.instant).toNat < _
            omega
        rw [Option.isSome_map]
        unfold Memory.deadline? secondLimit
        rw [if_pos (by omega)]
        rfl

/-! ## The ends of revocations and starts -/

theorem start_ends_iff (s : Service) : (∃ x, s.start.1 = .returned x) ↔ s.Ends load.run := by
  unfold Service.start Service.Ends
  obtain ⟨o, s₁⟩ := s.run load.run
  cases o with
  | returned x => exact iff_of_true ⟨_, rfl⟩ ⟨x, rfl⟩
  | abandoned => exact iff_of_false (fun ⟨_, h⟩ => nomatch h) fun ⟨_, h⟩ => nomatch h

/-- Over every engine and store, with any calls made to fail, a revocation comes to an end just if the marker of the
record can be written, or a call fails; and a start just if the markers of all outstanding records can be written, or a
call fails. A revocation that is abandoned leaves the record behind as revoked. As far as instants exist on both clocks,
a marker can be written just if the hour after the expiry of its token lies before the end of time. -/
theorem ends_iff_markable (s : Service) (r : TokenRecord) :
    (s.Ends (revoke r).run ↔ s.Markable r ∨ s.Fails (revoke r).run) ∧
    ((s.run (revoke r).run).1 = .abandoned →
      (s.run (revoke r).run).2.store =
        if r.isRevoked then s.store else s.store.save (r.revokedBy s.clocks.instant)) ∧
    ((∃ x, s.start.1 = .returned x) ↔
      (∀ q ∈ s.store.outstanding s.clocks.instant, s.Markable q) ∨ s.Fails load.run) ∧
    (Instant.inRange s.clocks.instant.seconds = true → s.clocks.monotonic < 9000000000000000000 * 1000000000 →
      (s.Markable r ↔ ∀ t ∈ r.expiresAt, Instant.inRange (t.seconds + 3600) = true)) := by
  refine ⟨(hinges_revoke s r).ends_iff (strict_revoke r), store_of_abandoned, ?_, markable_iff_inRange⟩
  exact (start_ends_iff s).trans ((hinges_load s).ends_iff strict_load)

/-- The record of an administrator's token that expires at the end of a second. -/
def sampleExpiring (seconds : Int) (revokedAt : Option Instant) : TokenRecord :=
  { id := "admin_access_tokens:1", kind := .admin, subject := "1", expiresAt := some ⟨seconds, 999999999⟩, revokedAt,
    createdAt := ⟨1699995600, 0⟩ }

/-- A service in the year 2023 over a new engine in memory, with a single record. -/
def sampleHolding (r : TokenRecord) : Service :=
  Service.new ⟨1700000000000000000, 7⟩ (.memory (Memory.start 7 none)) (TokenStore.ofList [r]) fun _ => 0

/-- A token that expires an hour before the end of time can be revoked, and a service can start when it is; one that
expires a second later has a revocation that is abandoned, with the record saved. -/
theorem ends_an_hour_before_last_second :
    let early := sampleExpiring 8210266873199 none
    let late := sampleExpiring 8210266873200 none
    (sampleHolding early).Ends (revoke early).run ∧
      (∃ x, (sampleHolding (sampleExpiring 8210266873199 (some ⟨1699999200, 0⟩))).start.1 = .returned x) ∧
      ¬(sampleHolding late).Markable late ∧
      ((sampleHolding late).run (revoke late).run).2.store =
        (sampleHolding late).store.save (sampleExpiring 8210266873200 (some ⟨1700000000, 0⟩)) := by
  intro early late
  have hwall (r : TokenRecord) : Instant.inRange (sampleHolding r).clocks.instant.seconds = true := rfl
  have hforward (r : TokenRecord) : (sampleHolding r).clocks.monotonic < 9000000000000000000 * 1000000000 :=
    show 7 < 9000000000000000000 * 1000000000 by decide
  have hmarkable (r : TokenRecord) (revokedAt : Option Instant) :
      (sampleHolding r).Markable (sampleExpiring 8210266873199 revokedAt) :=
    ((ends_iff_markable (sampleHolding r) _).2.2.2 (hwall r) (hforward r)).mpr fun t ht => by cases ht; rfl
  refine ⟨?_, ?_, ?_, ?_⟩
  · exact (ends_iff_markable (sampleHolding early) early).1.mpr (.inl (hmarkable _ _))
  · refine (ends_iff_markable (sampleHolding (sampleExpiring 8210266873199 (some ⟨1699999200, 0⟩))) early).2.2.1.mpr
      (.inl fun q hq => ?_)
    obtain rfl : q = sampleExpiring 8210266873199 (some ⟨1699999200, 0⟩) := List.mem_singleton.mp hq
    exact hmarkable _ _
  · intro h
    have hlate := ((ends_iff_markable (sampleHolding late) late).2.2.2 (hwall _) (hforward _)).mp h _ rfl
    cases hlate
  · exact (ends_iff_markable (sampleHolding late) late).2.1 (by decide +kernel)

/-- A token expires at the last instant that there is. Its revocation is abandoned and leaves the record behind as
revoked, and then no service starts. -/
theorem abandoned_at_last_second :
    let r := sampleExpiring Instant.lastSecond none
    let s := sampleHolding r
    (s.run (revoke r).run).1 = .abandoned ∧
      (s.run (revoke r).run).2.store.find? r.id = some (r.revokedBy s.clocks.instant) ∧
      (sampleHolding (r.revokedBy s.clocks.instant)).start.1 = .abandoned := by
  decide +kernel

end Revocation

end Gatehouse
