import Mathlib.Data.List.Induction
import Gatehouse.Proofs.Cache.Live
import Gatehouse.Proofs.Service.Calm

/-!
# The live keys of a cache, told by what happened

A chronicle says which events of a history wrote a key, for how long, and which removed it. A key is kept if it has been
written, its lifetime is not over, and it has been neither written again nor removed since. Over an engine in memory the
live keys are those that are kept, whatever happens (`Memory.Mirrors`).
-/

namespace Gatehouse

/-! ## Since a moment of the past -/

/-- Something happened in a list of events, the latest last, and all that came after it satisfies a condition. -/
def Since {α : Type} (A B : α → Prop) (l : List α) : Prop :=
  ∃ older a newer, l = older ++ a :: newer ∧ A a ∧ ∀ b ∈ newer, B b

namespace Since

variable {α : Type} {A A' B B' : α → Prop} {l : List α} {a : α}

theorem not_nil : ¬Since A B [] := by
  rintro ⟨older, a, newer, heq, -⟩
  exact List.append_ne_nil_of_right_ne_nil older (List.cons_ne_nil a newer) heq.symm

/-- After one more event, either it is that event, or the event satisfies the condition and it was so before. -/
theorem concat_iff : Since A B (l ++ [a]) ↔ A a ∨ (B a ∧ Since A B l) := by
  constructor
  · rintro ⟨older, w, newer, heq, hw, hnewer⟩
    cases newer using List.reverseRecOn with
    | nil =>
      obtain ⟨-, heq⟩ := List.append_inj' heq rfl
      obtain rfl := List.singleton_inj.mp heq
      exact .inl hw
    | append_singleton newer b =>
      rw [← List.cons_append, ← List.append_assoc] at heq
      obtain ⟨rfl, hab⟩ := List.append_inj' heq rfl
      obtain rfl := List.singleton_inj.mp hab
      exact .inr ⟨hnewer a (List.mem_append_right _ List.mem_cons_self), older, w, newer, rfl, hw,
        fun c hc => hnewer c (List.mem_append_left _ hc)⟩
  · rintro (ha | ⟨hb, older, w, newer, rfl, hw, hnewer⟩)
    · exact ⟨l, a, [], rfl, ha, nofun⟩
    · refine ⟨older, w, newer ++ [a], by simp, hw, fun c hc => ?_⟩
      rcases List.mem_append.mp hc with hc | hc
      · exact hnewer c hc
      · obtain rfl := List.mem_singleton.mp hc
        exact hb

/-- What came before an event that does not satisfy the condition does not matter. -/
theorem append_iff {older newer : List α} (ha : ¬B a) : Since A B (older ++ a :: newer) ↔ Since A B (a :: newer) := by
  induction newer using List.reverseRecOn with
  | nil =>
    rw [concat_iff, ← List.nil_append [a], concat_iff]
    exact or_congr_right (iff_of_false (fun h => ha h.1) fun h => ha h.1)
  | append_singleton newer b ih => rw [← List.cons_append, ← List.append_assoc, concat_iff, concat_iff, ih]

/-- What happened at all happened a last time. -/
theorem of_mem (h : a ∈ l) (ha : A a) : Since A (fun b => ¬A b) l := by
  induction l using List.reverseRecOn with
  | nil => cases h
  | append_singleton l b ih =>
    rw [concat_iff]
    by_cases hb : A b
    · exact .inl hb
    · rcases List.mem_append.mp h with h | h
      · exact .inr ⟨hb, ih h⟩
      · obtain rfl := List.mem_singleton.mp h
        exact absurd ha hb

theorem congr (hA : ∀ a ∈ l, A a ↔ A' a) (hB : ∀ a ∈ l, B a ↔ B' a) : Since A B l ↔ Since A' B' l := by
  constructor
  · rintro ⟨older, a, newer, rfl, ha, hnewer⟩
    exact ⟨older, a, newer, rfl, (hA a (by simp)).mp ha, fun b hb => (hB b (by simp [hb])).mp (hnewer b hb)⟩
  · rintro ⟨older, a, newer, rfl, ha, hnewer⟩
    exact ⟨older, a, newer, rfl, (hA a (by simp)).mpr ha, fun b hb => (hB b (by simp [hb])).mpr (hnewer b hb)⟩

end Since

/-! ## Chronicles -/

/-- What the events of a history did to the keys of a cache. -/
structure Chronicle (α : Type) where
  time : α → Nat
  /-- The event wrote a key, to live for a span, or for ever if that is zero. -/
  writes : α → String → Span → Prop
  removes : α → String → Prop

namespace Chronicle

variable {α : Type} (C : Chronicle α)

/-- A key is kept at a time: since it was written for a lifetime that is not over, it has been neither written again nor
removed. -/
def Keeps (now : Nat) (key : String) : List α → Prop :=
  Since (fun a => ∃ d, C.writes a key d ∧ (d.nanos = 0 ∨ now < C.time a + d.nanos))
    fun a => (¬∃ d, C.writes a key d) ∧ ¬C.removes a key

variable {C} {l : List α} {a : α} {now : Nat} {key : String}

/-- Chronicles that say the same of a key keep it alike. -/
theorem keeps_congr {C' : Chronicle α} (htime : C.time = C'.time)
    (hwrites : ∀ a ∈ l, ∀ d, C.writes a key d ↔ C'.writes a key d)
    (hremoves : ∀ a ∈ l, C.removes a key ↔ C'.removes a key) : C.Keeps now key l ↔ C'.Keeps now key l := by
  refine Since.congr (fun a ha => ?_) fun a ha => ?_
  · rw [htime]
    exact exists_congr fun d => and_congr_left fun _ => hwrites a ha d
  · exact and_congr (not_congr (exists_congr (hwrites a ha))) (not_congr (hremoves a ha))

theorem not_keeps_nil : ¬C.Keeps now key [] := Since.not_nil

/-- An event that does not write a key leaves it kept unless it removes it. -/
theorem keeps_concat_of_not_writes (h : ∀ d, ¬C.writes a key d) :
    C.Keeps now key (l ++ [a]) ↔ ¬C.removes a key ∧ C.Keeps now key l := by
  rw [Keeps, Since.concat_iff]
  constructor
  · rintro (⟨d, hd, -⟩ | ⟨⟨-, hremoves⟩, hkeeps⟩)
    · exact absurd hd (h d)
    · exact ⟨hremoves, hkeeps⟩
  · exact fun ⟨hremoves, hkeeps⟩ => .inr ⟨⟨fun ⟨d, hd⟩ => h d hd, hremoves⟩, hkeeps⟩

/-- An event that writes a key keeps it for the lifetime with which it was written. -/
theorem keeps_concat_of_writes {d : Span} (h : C.writes a key d) (honly : ∀ d', C.writes a key d' → d' = d) :
    C.Keeps now key (l ++ [a]) ↔ d.nanos = 0 ∨ now < C.time a + d.nanos := by
  rw [Keeps, Since.concat_iff]
  constructor
  · rintro (⟨d', hd', hage⟩ | ⟨⟨hno, -⟩, -⟩)
    · exact honly d' hd' ▸ hage
    · exact absurd ⟨d, h⟩ hno
  · exact fun hage => .inl ⟨d, h, hage⟩

/-- Since a key was written, what came before does not matter. -/
theorem keeps_append_of_writes {older newer : List α} {d : Span} (h : C.writes a key d) :
    C.Keeps now key (older ++ a :: newer) ↔ C.Keeps now key (a :: newer) :=
  Since.append_iff fun hb => hb.1 ⟨d, h⟩

/-- If a key is always written for the same lifetime, and that of one of its writes is not over, then the key is kept
exactly if every removal of it is followed by another write. -/
theorem keeps_iff_of_writes {d : Span} (hordered : l.Pairwise fun a b => C.time a ≤ C.time b)
    (honly : ∀ a ∈ l, ∀ d', C.writes a key d' → d' = d)
    (hremoves : ∀ a ∈ l, C.removes a key → ¬∃ d, C.writes a key d) (ha : a ∈ l) (hwrites : C.writes a key d)
    (hnow : d.nanos = 0 ∨ now < C.time a + d.nanos) :
    C.Keeps now key l ↔
      ∀ older b newer, l = older ++ b :: newer → C.removes b key → ∃ c ∈ newer, ∃ d, C.writes c key d := by
  constructor
  · rintro hkeeps older b newer rfl hb
    obtain ⟨between, w, newest, hsplit, ⟨d', hw, -⟩, -⟩ := (Since.append_iff fun hleaves => hleaves.2 hb).mp hkeeps
    cases between with
    | nil =>
      obtain ⟨rfl, -⟩ := List.cons.inj hsplit
      exact absurd ⟨d', hw⟩ (hremoves b (List.mem_append_right _ List.mem_cons_self) hb)
    | cons c between =>
      obtain ⟨-, rfl⟩ := List.cons.inj hsplit
      exact ⟨w, List.mem_append_right _ List.mem_cons_self, d', hw⟩
  · intro hrewritten
    obtain ⟨older, w, newer, rfl, ⟨d', hw⟩, hnewer⟩ :=
      Since.of_mem (A := fun a => ∃ d, C.writes a key d) ha ⟨d, hwrites⟩
    have hlast : w ∈ older ++ w :: newer := List.mem_append_right _ List.mem_cons_self
    have hle : C.time a ≤ C.time w := by
      rcases List.mem_append.mp ha with ha | ha
      · exact (List.pairwise_append.mp hordered).2.2 a ha w List.mem_cons_self
      · rcases List.mem_cons.mp ha with rfl | ha
        · exact Nat.le_refl _
        · exact absurd ⟨d, hwrites⟩ (hnewer a ha)
    obtain rfl := honly w hlast d' hw
    refine ⟨older, w, newer, rfl, ⟨d', hw, hnow.imp_right fun hlt => by omega⟩,
      fun b hb => ⟨hnewer b hb, fun hgone => ?_⟩⟩
    obtain ⟨between, newest, rfl⟩ := List.append_of_mem hb
    obtain ⟨c, hc, hwritten⟩ := hrewritten (older ++ w :: between) b newest (by simp) hgone
    exact hnewer c (by simp [hc]) hwritten

/-- A key that is always written for the same lifetime, and never removed, is kept as long as one of its writes says. -/
theorem keeps_of_writes {d : Span} (hordered : l.Pairwise fun a b => C.time a ≤ C.time b)
    (honly : ∀ a ∈ l, ∀ d', C.writes a key d' → d' = d) (hremoves : ∀ a ∈ l, ¬C.removes a key) (ha : a ∈ l)
    (hwrites : C.writes a key d) (hnow : now < C.time a + d.nanos) : C.Keeps now key l := by
  refine (keeps_iff_of_writes hordered honly (fun b hb hgone => absurd hgone (hremoves b hb)) ha hwrites
    (.inr hnow)).mpr fun older b newer hl hgone => ?_
  exact absurd hgone (hremoves b (hl ▸ List.mem_append_right _ List.mem_cons_self))

end Chronicle

/-! ## Engines in memory -/

namespace Memory

variable {α : Type} {C : Chronicle α} {K : String → Prop} {m m' : Memory} {now t : Nat} {l : List α} {a : α}

/-- An entry that is written now is live as long as its lifetime says. -/
theorem isLive_of_lifetime (value : Bytes) (window : Span) :
    Entry.isLive ⟨value, (Cache.lifetime (some window)).map fun d => now + d.nanos⟩ t = true ↔
      window.nanos = 0 ∨ t < now + window.nanos := by
  unfold Cache.lifetime Entry.isLive
  rw [Option.filter_some]
  by_cases hzero : window.nanos = 0
  · simp [hzero]
  · simp [hzero]

/-- Of the keys that satisfy a condition, those that are live from now on are those that are kept. -/
def Mirrors (C : Chronicle α) (K : String → Prop) (m : Memory) (now : Nat) (l : List α) : Prop :=
  ∀ key t, K key → now ≤ t → ((m.live? t key).isSome = true ↔ C.Keeps t key l)

namespace Mirrors

/-- An engine without any of the keys, before anything has happened. -/
theorem start (h : ∀ key, K key → m.entries.get? key = none) : m.Mirrors C K now [] := by
  refine fun key t hkey _ => ⟨fun hlive => ?_, fun hkeeps => absurd hkeeps Chronicle.not_keeps_nil⟩
  rw [live?, h key hkey] at hlive
  cases hlive

theorem later (h : m.Mirrors C K now l) (hle : now ≤ t) : m.Mirrors C K t l :=
  fun key t' hkey ht' => h key t' hkey (Nat.le_trans hle ht')

theorem prune (h : m.Mirrors C K now l) : (m.prune now).Mirrors C K now l := by
  intro key t hkey ht
  rw [live?_prune ht, h key t hkey ht]

theorem tick (h : m.Mirrors C K now l) : (m.tick now).Mirrors C K now l := by
  intro key t hkey ht
  rw [live?_tick ht, h key t hkey ht]

/-- An event that writes none of the keys, and after which those that it did not remove are live as they were. -/
theorem removed (h : m.Mirrors C K now l) (hwrites : ∀ key d, K key → ¬C.writes a key d)
    (hlive : ∀ key t, K key → now ≤ t →
      ((m'.live? t key).isSome = true ↔ ¬C.removes a key ∧ (m.live? t key).isSome = true)) :
    m'.Mirrors C K now (l ++ [a]) := by
  intro key t hkey ht
  rw [hlive key t hkey ht, h key t hkey ht, Chronicle.keeps_concat_of_not_writes fun d => hwrites key d hkey]

/-- An event that neither writes nor removes any of the keys. -/
theorem ignored (h : m.Mirrors C K now l) (hwrites : ∀ key d, K key → ¬C.writes a key d)
    (hremoves : ∀ key, K key → ¬C.removes a key) : m.Mirrors C K now (l ++ [a]) :=
  h.removed hwrites fun key _ hkey _ => (and_iff_right (hremoves key hkey)).symm

/-- An event that writes one key, whatever it replaces, and removes none. -/
theorem written {key : String} {d : Span} (h : m.Mirrors C K (C.time a) l) (hwrite : C.writes a key d)
    (honly : ∀ key' d', C.writes a key' d' → key' = key ∧ d' = d) (hremoves : ∀ key, K key → ¬C.removes a key)
    (value : Bytes) :
    Mirrors C K
      { m with
        entries := m.entries.insert key ⟨value, (Cache.lifetime (some d)).map fun d => C.time a + d.nanos⟩ }
      (C.time a) (l ++ [a]) := by
  intro key' t hkey' ht
  rw [live?_insert]
  by_cases hkey : key' = key
  · subst hkey
    rw [if_pos rfl, Option.filter_some, Chronicle.keeps_concat_of_writes hwrite fun d' hd' => (honly key' d' hd').2,
      ← isLive_of_lifetime value d]
    split <;> simp [*]
  · rw [if_neg hkey, h key' t hkey' ht,
      Chronicle.keeps_concat_of_not_writes fun d' hd' => hkey (honly key' d' hd').1,
      and_iff_right (hremoves key' hkey')]

end Mirrors

end Memory

namespace Service

variable {α : Type} {C : Chronicle α} {K : String → Prop} {s : Service} {l : List α}

/-- A calm service in which, of the keys that satisfy a condition, those that are live from now on are those that are
kept. -/
def Mirrors (C : Chronicle α) (K : String → Prop) (s : Service) (l : List α) : Prop :=
  ∃ m, s.Calm m ∧ m.Mirrors C K s.clocks.monotonic l

/-- What moves the clocks or removes expired entries changes nothing about that. -/
theorem Mirrors.apply {e : ServiceEvent} (h : s.Mirrors C K l) (he : e.IsFaultless) (hcall : ∀ c, e ≠ .call c) :
    (s.apply e).Mirrors C K l := by
  obtain ⟨m, hm, hmirrors⟩ := h
  obtain ⟨m', hm', hle, hsame⟩ := hm.apply he hcall
  refine ⟨m', hm', ?_⟩
  rcases hsame with rfl | rfl | rfl
  · exact hmirrors.later hle
  · exact (hmirrors.later hle).prune
  · exact (hmirrors.later hle).tick

end Service

end Gatehouse
