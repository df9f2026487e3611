import Gatehouse.Proofs.Revocation.Deadline
import Gatehouse.Proofs.Revocation.Safety
import Gatehouse.Proofs.Token.Store

/-!
# Records that are covered

A record is covered when a verification does not need to know whether it is revoked: its token has expired, or its
marker is in the engine with the deadline that it should have. Loading covers every revoked record that the store holds
(`covered_of_load`), and a covered record stays covered while expired entries are removed (`Covered.prune`) and the
clocks move together (`Covered.advance`).
-/

namespace Gatehouse

open Revocation

namespace Memory

/-- The engine with the marker of a token in it. -/
def withMarker (m : Memory) (id : String) (deadline : Option Nat) : Memory :=
  { m with entries := m.entries.insert (Keys.revokedToken id) ⟨Json.encode true, deadline⟩ }

variable {m m' : Memory} {clocks : Clocks}

theorem get?_withMarker (id key : String) (deadline : Option Nat) :
    (m.withMarker id deadline).entries.get? key =
      if key = Keys.revokedToken id then some ⟨Json.encode true, deadline⟩ else m.entries.get? key :=
  Table.get?_insert _ _ _ _

/-- Writing a marker puts it into an open engine, if the deadline that it should have exists. -/
theorem perform_markerCall {id : String} {expiresAt : Option Instant} {lifetime : Option Span}
    (hopen : m.closed = false) (hlife : markerLifetime expiresAt clocks.instant = .returned lifetime) :
    m.perform clocks.monotonic (markerCall id lifetime) =
      match markerDeadline? expiresAt clocks with
      | some deadline => (.returned (.ok ()), m.withMarker id deadline)
      | none => (.abandoned, m) := by
  rw [perform_eq_respond hopen]
  unfold markerCall markerDeadline?
  rw [hlife]
  cases hd : Cache.lifetime lifetime with
  | none => simp only [hd]; rfl
  | some d =>
    simp only [hd, respond]
    cases deadline? clocks.monotonic d <;> rfl

/-- The second engine is the first with the markers of records written into it, one after another. -/
inductive Marked (clocks : Clocks) : List TokenRecord → Memory → Memory → Prop where
  | nil (m : Memory) : Marked clocks [] m m
  | cons {r : TokenRecord} {rs : List TokenRecord} {m m' : Memory} {deadline : Option Nat}
      (hdeadline : markerDeadline? r.expiresAt clocks = some deadline)
      (rest : Marked clocks rs (m.withMarker r.id deadline) m') : Marked clocks (r :: rs) m m'

namespace Marked

variable {rs rs' : List TokenRecord} {r : TokenRecord}

theorem append {m'' : Memory} (h : Marked clocks rs m m') (h' : Marked clocks rs' m' m'') :
    Marked clocks (rs ++ rs') m m'' := by
  induction h with
  | nil m => exact h'
  | cons hdeadline rest ih => exact .cons hdeadline (ih h')

theorem closed_eq (h : Marked clocks rs m m') : m'.closed = m.closed := by
  induction h with
  | nil m => rfl
  | cons hdeadline rest ih => exact ih

/-- No key changes but those of the markers. -/
theorem get?_of_ne (h : Marked clocks rs m m') {key : String} (hne : ∀ r ∈ rs, key ≠ Keys.revokedToken r.id) :
    m'.entries.get? key = m.entries.get? key := by
  induction h with
  | nil m => rfl
  | cons hdeadline rest ih =>
    rw [ih fun r hr => hne r (List.mem_cons_of_mem _ hr), get?_withMarker, if_neg (hne _ List.mem_cons_self)]

/-- Every entry was there before, or it is under the key of one of the markers. -/
theorem exists_of_get? (h : Marked clocks rs m m') {key : String} {e : Entry} (he : m'.entries.get? key = some e) :
    m.entries.get? key = some e ∨ ∃ r ∈ rs, key = Keys.revokedToken r.id := by
  by_cases hmarker : ∃ r ∈ rs, key = Keys.revokedToken r.id
  · exact .inr hmarker
  · rw [h.get?_of_ne fun r hr heq => hmarker ⟨r, hr, heq⟩] at he
    exact .inl he

/-- Every record has its marker in the end, if the id tells the record. -/
theorem get?_of_mem (h : Marked clocks rs m m') (hr : r ∈ rs) (hid : ∀ r' ∈ rs, r'.id = r.id → r' = r) :
    ∃ e, m'.entries.get? (Keys.revokedToken r.id) = some e ∧ markerDeadline? r.expiresAt clocks = some e.deadline := by
  induction h with
  | nil m => exact absurd hr List.not_mem_nil
  | @cons r₁ rs m m' deadline hdeadline rest ih =>
    by_cases hlater : r ∈ rs
    · exact ih hlater fun r' hr' => hid r' (List.mem_cons_of_mem _ hr')
    · -- No later marker is under the key of this one.
      obtain rfl : r = r₁ := (List.mem_cons.mp hr).resolve_right hlater
      refine ⟨⟨Json.encode true, deadline⟩, ?_, hdeadline⟩
      rw [rest.get?_of_ne, get?_withMarker, if_pos rfl]
      intro r' hr' heq
      obtain rfl := hid r' (List.mem_cons_of_mem _ hr') (Keys.revokedToken_inj.mp heq).symm
      exact hlater hr'

end Marked

end Memory

namespace Revocation

/-! ## Loading -/

variable {s s' : Service} {m : Memory} {clocks clocks' : Clocks} {r : TokenRecord} {rs : List TokenRecord}

/-- A service in which nothing has changed but that markers of records were written. -/
structure Writes (s : Service) (rs : List TokenRecord) (m : Memory) (s' : Service) : Prop where
  clocks_eq : s'.clocks = s.clocks
  store_eq : s'.store = s.store
  engine : ∃ m', s'.engine = .memory m' ∧ Memory.Marked s.clocks rs m m'

theorem Writes.nil (hm : s.engine = .memory m) : Writes s [] m s := ⟨rfl, rfl, m, hm, .nil m⟩

theorem Writes.append {rs' : List TokenRecord} {s'' : Service} (h : Writes s rs m s')
    (h' : ∀ m', s'.engine = .memory m' → Writes s' rs' m' s'') : Writes s (rs ++ rs') m s'' := by
  obtain ⟨m', hm', hmarked⟩ := h.engine
  obtain ⟨hclocks, hstore, m'', hm'', hmarked'⟩ := h' m' hm'
  rw [h.clocks_eq] at hmarked'
  exact ⟨hclocks.trans h.clocks_eq, hstore.trans h.store_eq, m'', hm'', hmarked.append hmarked'⟩

/-- A marker that was written has the deadline that it should have. -/
theorem writes_of_mark (hm : s.engine = .memory m)
    (h : s.run (mark r s.clocks.instant).run = (.returned (.ok ()), s')) : Writes s [r] m s' := by
  obtain ⟨lifetime, hlife, hput, hengine, hclocks, hstore⟩ := mark_ok hm h
  have hopen := Memory.open_of_perform_ok hput
  rw [Memory.perform_markerCall hopen hlife] at hput hengine
  cases hdeadline : markerDeadline? r.expiresAt s.clocks with
  | none =>
    rw [hdeadline] at hput
    cases hput
  | some deadline =>
    rw [hdeadline] at hengine
    exact ⟨hclocks, hstore, _, hengine, .cons hdeadline (.nil _)⟩

theorem writes_of_marks (hm : s.engine = .memory m)
    (h : s.run (rs.forM fun r => mark r s.clocks.instant).run = (.returned (.ok ()), s')) : Writes s rs m s' := by
  induction rs generalizing s m with
  | nil =>
    cases h
    exact .nil hm
  | cons r rs ih =>
    obtain ⟨_, s₁, h₁, h₂⟩ := Service.run_bind_ok (x := mark r s.clocks.instant) h
    have hfirst := writes_of_mark hm h₁
    refine hfirst.append fun m₁ hm₁ => ih hm₁ ?_
    rw [hfirst.clocks_eq]
    exact h₂

/-- What the store tells of is what it holds, and asking changes nothing. -/
theorem revoked_ok {kind : TokenKind} {now : Instant} {records : List TokenRecord}
    (h : s.run (store (.revoked kind now)).run = (.returned (.ok records), s')) :
    records = s.store.revoked kind now ∧ s'.clocks = s.clocks ∧ s'.store = s.store ∧ s'.engine = s.engine := by
  have hrun : s.run (store (.revoked kind now)).run = s.answer (.store (.revoked kind now)) :=
    Service.run_request _
  rw [hrun] at h
  simp only [Service.answer, Service.callStore] at h
  split at h
  · cases h
  · cases h
    exact ⟨rfl, rfl, rfl, rfl⟩

/-- Restoring a kind writes the markers of its outstanding records. -/
theorem writes_of_restore {kind : TokenKind} {n : Nat} (hm : s.engine = .memory m)
    (h : s.run (restore s.clocks.instant kind).run = (.returned (.ok n), s')) :
    n = (s.store.revoked kind s.clocks.instant).length ∧
      Writes s (s.store.revoked kind s.clocks.instant) m s' := by
  obtain ⟨records, s₁, h₁, h⟩ := Service.run_bind_ok h
  obtain ⟨rfl, hclocks, hstore, hengine⟩ := revoked_ok h₁
  obtain ⟨_, s₂, h₂, h⟩ := Service.run_bind_ok h
  cases h
  refine ⟨rfl, ?_⟩
  rw [← hclocks] at h₂
  obtain ⟨hclocks', hstore', m', hm', hmarked⟩ := writes_of_marks (hengine.trans hm) h₂
  rw [hclocks] at hclocks' hmarked
  exact ⟨hclocks', hstore'.trans hstore, m', hm', hmarked⟩

theorem writes_of_restores {kinds : List TokenKind} {counts : List Nat} (hm : s.engine = .memory m)
    (h : s.run (kinds.mapM (restore s.clocks.instant)).run = (.returned (.ok counts), s')) :
    counts = kinds.map (fun kind => (s.store.revoked kind s.clocks.instant).length) ∧
      Writes s (kinds.flatMap fun kind => s.store.revoked kind s.clocks.instant) m s' := by
  induction kinds generalizing s m counts with
  | nil =>
    cases h
    exact ⟨rfl, .nil hm⟩
  | cons kind kinds ih =>
    rw [List.mapM_cons] at h
    obtain ⟨n, s₁, h₁, h⟩ := Service.run_bind_ok h
    obtain ⟨rest, s₂, h₂, h⟩ := Service.run_bind_ok h
    cases h
    obtain ⟨rfl, hfirst⟩ := writes_of_restore hm h₁
    have hclocks := hfirst.clocks_eq
    have hstore := hfirst.store_eq
    have hrest (m₁ : Memory) (hm₁ : s₁.engine = .memory m₁) := ih hm₁ (by rw [hclocks]; exact h₂)
    rw [hclocks, hstore] at hrest
    obtain ⟨m₁, hm₁, -⟩ := hfirst.engine
    refine ⟨congrArg _ (hrest m₁ hm₁).1, hfirst.append fun m₁ hm₁ => ?_⟩
    exact (hrest m₁ hm₁).2

/-- Loading writes the markers of all outstanding records, and shows how many there are. -/
theorem load_ok {total : Nat} (hm : s.engine = .memory m)
    (h : s.run load.run = (.returned (.ok total), s')) :
    s'.metrics.loaded = some (s.store.outstanding s.clocks.instant).length ∧
      Writes s (TokenKind.all.flatMap fun kind => s.store.revoked kind s.clocks.instant) m s' := by
  obtain ⟨now, s₀, h₀, h⟩ := Service.run_bind_ok h
  cases Service.run_lift_ok h₀
  obtain ⟨counts, s₁, h₁, h⟩ := Service.run_bind_ok h
  obtain ⟨_, s₂, h₂, h⟩ := Service.run_bind_ok h
  cases Service.run_lift_ok h₂
  cases h
  obtain ⟨rfl, hclocks, hstore, hengine⟩ := writes_of_restores hm h₁
  exact ⟨congrArg some (s.store.sum_length_revoked s.clocks.instant), hclocks, hstore, hengine⟩

/-! ## Coverage -/

/-- The token of a record has expired, or its marker is in the engine with the deadline that it should have. -/
def Covered (clocks : Clocks) (m : Memory) (r : TokenRecord) : Prop :=
  r.isExpired clocks.instant = true ∨
    ∃ e, m.entries.get? (Keys.revokedToken r.id) = some e ∧ markerDeadline? r.expiresAt clocks = some e.deadline

/-- A record stays covered as long as the clocks keep their distance. -/
theorem Covered.of_later (h : Covered clocks m r) (hle : clocks.wall ≤ clocks'.wall)
    (hoff : clocks'.offset = clocks.offset) : Covered clocks' m r := by
  cases hexp : r.isExpired clocks'.instant with
  | true => exact .inl hexp
  | false =>
    rcases h with hexp' | ⟨e, he, hdeadline⟩
    · rw [TokenRecord.isExpired_mono hexp' hle] at hexp
      cases hexp
    · exact .inr ⟨e, he, (markerDeadline?_eq_of_offset_eq (withinMargin_of_unexpired hexp) hle hoff).trans hdeadline⟩

/-- The marker of a covered record is live until the token has expired. -/
theorem Covered.live? (h : Covered clocks m r) (hexp : r.isExpired clocks.instant = false) :
    ∃ e, m.live? clocks.monotonic (Keys.revokedToken r.id) = some e ∧
      markerDeadline? r.expiresAt clocks = some e.deadline := by
  rcases h with hexp' | ⟨e, he, hdeadline⟩
  · rw [hexp'] at hexp
    cases hexp
  · refine ⟨e, ?_, hdeadline⟩
    unfold Memory.live?
    rw [he]
    exact Option.filter_some_pos (isLive_of_markerDeadline? hdeadline)

/-- A covered record stays covered when expired entries are removed. -/
theorem Covered.prune (h : Covered clocks m r) : Covered clocks (m.prune clocks.monotonic) r := by
  refine h.imp_right ?_
  rintro ⟨e, he, hdeadline⟩
  exact ⟨e, Memory.get?_prune_of_isLive he (isLive_of_markerDeadline? hdeadline), hdeadline⟩

theorem Covered.tick (h : Covered clocks m r) : Covered clocks (m.tick clocks.monotonic) r := by
  refine h.imp_right ?_
  rintro ⟨e, he, hdeadline⟩
  exact ⟨e, Memory.get?_tick_of_isLive he (isLive_of_markerDeadline? hdeadline), hdeadline⟩

/-- A record stays covered as both clocks move forward. -/
theorem Covered.advance (h : Covered clocks m r) (d : Span) :
    Covered ⟨clocks.wall + d.nanos, clocks.monotonic + d.nanos⟩ (m.tick (clocks.monotonic + d.nanos)) r := by
  have hoff : (⟨clocks.wall + d.nanos, clocks.monotonic + d.nanos⟩ : Clocks).offset = clocks.offset := by
    simp only [Clocks.offset]
    omega
  have hle : clocks.wall ≤ clocks.wall + d.nanos := Int.le_add_of_nonneg_right (Int.natCast_nonneg _)
  exact (h.of_later hle hoff).tick

/-- Loading covers every revoked record of the store. -/
theorem covered_of_load {total : Nat} (hm : s.engine = .memory m) (hkeyed : s.store.Keyed)
    (h : s.run load.run = (.returned (.ok total), s')) :
    ∃ m', s'.engine = .memory m' ∧ ∀ r, s.store.Holds r → r.isRevoked = true → Covered s.clocks m' r := by
  obtain ⟨-, -, -, m', hm', hmarked⟩ := load_ok hm h
  refine ⟨m', hm', fun r hr hrev => ?_⟩
  cases hexp : r.isExpired s.clocks.instant with
  | true => exact .inl hexp
  | false =>
    have hmem := (TokenStore.mem_outstanding hkeyed).mpr ⟨hr, hrev, hexp⟩
    refine .inr (hmarked.get?_of_mem (TokenStore.mem_flatMap_revoked.mpr hmem) fun r' hr' hid => ?_)
    have hout' := TokenStore.mem_flatMap_revoked.mp hr'
    exact ((TokenStore.mem_outstanding hkeyed).mp hout').1.eq hr hid

end Revocation

end Gatehouse
