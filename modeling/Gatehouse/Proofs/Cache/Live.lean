import Gatehouse.Proofs.Cache.Memory
import Gatehouse.Proofs.Service.Requests

/-!
# What an engine in memory still shows

What can be seen of an entry from some time on is whether it is live then. Sweeps change nothing about that, and a call
changes it for the keys that it writes or removes. Engines that show the same under some keys, from now on, answer
every call within those keys alike (`Alike.perform`), and calls outside of them make no difference (`Alike.frame`).
-/

namespace Gatehouse

namespace Memory

variable {m m' : Memory} {now t : Nat} {key stem : String} {K : String → Prop}

/-! ## Live entries at later times -/

theorem Entry.isLive_of_later {e : Entry} (h : now ≤ t) (he : e.isLive t = true) : e.isLive now = true := by
  unfold Entry.isLive at he ⊢
  cases hdeadline : e.deadline with
  | none => rfl
  | some d =>
    rw [hdeadline, Option.all_some, decide_eq_true_eq] at he
    rw [Option.all_some, decide_eq_true_eq]
    omega

/-- An entry that is live was live before. -/
theorem live?_of_later {e : Entry} (h : now ≤ t) (he : m.live? t key = some e) : m.live? now key = some e := by
  obtain ⟨hget, hlive⟩ := Option.filter_eq_some_iff.mp he
  exact Option.filter_eq_some_iff.mpr ⟨hget, Entry.isLive_of_later h hlive⟩

theorem live?_insert (key' : String) (e : Entry) :
    ({ m with entries := m.entries.insert key' e } : Memory).live? t key =
      if key = key' then (some e).filter fun e => e.isLive t else m.live? t key := by
  unfold live?
  rw [Table.get?_insert]
  split <;> rfl

theorem live?_erase (key' : String) :
    ({ m with entries := m.entries.erase key' } : Memory).live? t key = if key = key' then none else m.live? t key := by
  unfold live?
  rw [Table.get?_erase]
  split <;> rfl

/-- Nothing that is live later is removed by a sweep. -/
theorem live?_prune (h : now ≤ t) : (m.prune now).live? t key = m.live? t key := by
  refine Option.ext fun e => ?_
  unfold live? prune
  rw [Table.get?_filter, Option.filter_eq_some_iff, Option.filter_eq_some_iff, Option.filter_eq_some_iff]
  exact ⟨fun he => ⟨he.1.1, he.2⟩, fun he => ⟨⟨he.1, Entry.isLive_of_later h he.2⟩, he.2⟩⟩

theorem live?_tick (h : now ≤ t) : (m.tick now).live? t key = m.live? t key := by
  unfold live?
  rcases m.entries_tick now with heq | heq
  · rw [heq]
  · rw [heq]
    exact live?_prune h

/-- A scan lists the live keys under its text. -/
theorem mem_keys_liveUnder {key : String} :
    key ∈ (m.liveUnder now stem).map Prod.fst ↔ startsWith stem key = true ∧ ∃ e, m.live? now key = some e := by
  rw [List.mem_map]
  constructor
  · rintro ⟨⟨key, e⟩, he, rfl⟩
    exact ⟨(mem_liveUnder.mp he).1, e, (mem_liveUnder.mp he).2⟩
  · rintro ⟨hkey, e, he⟩
    exact ⟨(key, e), mem_liveUnder.mpr ⟨hkey, he⟩, rfl⟩

/-! ## Engines that show the same under some keys -/

/-- Two engines are both open or both closed, list in the same order, and from now on show the same under the keys that
satisfy a condition. -/
structure Alike (K : String → Prop) (now : Nat) (m m' : Memory) : Prop where
  closed_eq : m'.closed = m.closed
  listing_eq : m'.listing = m.listing
  live?_eq : ∀ key, K key → ∀ t, now ≤ t → m'.live? t key = m.live? t key

namespace Alike

theorem refl (m : Memory) : Alike K now m m := ⟨rfl, rfl, fun _ _ _ _ => rfl⟩

theorem trans {m'' : Memory} (h : Alike K now m m') (h' : Alike K now m' m'') : Alike K now m m'' :=
  ⟨h'.closed_eq.trans h.closed_eq, h'.listing_eq.trans h.listing_eq,
    fun key hkey t ht => (h'.live?_eq key hkey t ht).trans (h.live?_eq key hkey t ht)⟩

theorem later (h : Alike K now m m') (ht : now ≤ t) : Alike K t m m' :=
  ⟨h.closed_eq, h.listing_eq, fun key hkey _ ht' => h.live?_eq key hkey _ (Nat.le_trans ht ht')⟩

theorem prune (h : Alike K now m m') : Alike K now (m.prune now) (m'.prune now) := by
  refine ⟨h.closed_eq, h.listing_eq, fun key hkey t ht => ?_⟩
  rw [live?_prune ht, live?_prune ht, h.live?_eq key hkey t ht]

theorem tick (h : Alike K now m m') : Alike K now (m.tick now) (m'.tick now) := by
  refine ⟨?_, ?_, fun key hkey t ht => ?_⟩
  · rw [closed_tick, closed_tick, h.closed_eq]
  · rw [listing_tick, listing_tick, h.listing_eq]
  · rw [live?_tick ht, live?_tick ht, h.live?_eq key hkey t ht]

theorem insert (h : Alike K now m m') (key' : String) (e : Entry) :
    Alike K now { m with entries := m.entries.insert key' e } { m' with entries := m'.entries.insert key' e } := by
  refine ⟨h.closed_eq, h.listing_eq, fun key hkey t ht => ?_⟩
  rw [live?_insert, live?_insert, h.live?_eq key hkey t ht]

theorem erase (h : Alike K now m m') (key' : String) :
    Alike K now { m with entries := m.entries.erase key' } { m' with entries := m'.entries.erase key' } := by
  refine ⟨h.closed_eq, h.listing_eq, fun key hkey t ht => ?_⟩
  rw [live?_erase, live?_erase, h.live?_eq key hkey t ht]

/-- A scan shows the same, if all the keys under its text satisfy the condition. -/
theorem liveUnder_eq (h : Alike K now m m') {stem : String} (hstem : ∀ key, startsWith stem key = true → K key) :
    m'.liveUnder now stem = m.liveUnder now stem := by
  refine liveUnder_congr h.listing_eq fun key hkey => ?_
  exact h.live?_eq key (hstem key hkey) now (Nat.le_refl now)

end Alike

/-! ## Calls within some keys, and calls outside of them -/

/-- A call that is about nothing but keys that satisfy a condition. -/
def Inside (K : String → Prop) : EngineCall → Prop
  | .has key | .fetch key | .put key _ _ | .delete key | .take key | .remaining key => K key
  | .keys stem | .entries stem => ∀ key, startsWith stem key = true → K key
  | .flush | .close => ∀ key, K key

/-- A call that changes nothing under the keys that satisfy a condition. -/
def Outside (K : String → Prop) : EngineCall → Prop
  | .put key _ _ | .delete key | .take key => ¬K key
  | .flush | .close => False
  | _ => True

theorem inside_of_key? {c : EngineCall} (hc : c.key? = some key) (h : K key) : Inside K c := by
  cases c <;> cases hc <;> exact h

/-- A call within some keys is outside of any others. -/
theorem outside_of_inside {K' : String → Prop} {c : EngineCall} (hapart : ∀ key, K' key → ¬K key) {witness : String}
    (hwitness : K witness) (h : Inside K' c) : Outside K c := by
  cases c with
  | put key value lifetime => exact hapart key h
  | delete key => exact hapart key h
  | take key => exact hapart key h
  | flush => exact hapart witness (h witness) hwitness
  | close => exact hapart witness (h witness) hwitness
  | _ => trivial

namespace Alike

/-- A call within the keys under which two engines show the same is answered alike, and leaves them so. -/
theorem respond (h : Alike K now m m') {c : EngineCall} (hc : Inside K c) :
    (m'.respond now c).1 = (m.respond now c).1 ∧ Alike K now (m.respond now c).2 (m'.respond now c).2 := by
  cases c with
  | has key => exact ⟨by simp only [Memory.respond, h.live?_eq key hc now (Nat.le_refl now)], h⟩
  | fetch key => exact ⟨by simp only [Memory.respond, h.live?_eq key hc now (Nat.le_refl now)], h⟩
  | remaining key => exact ⟨by simp only [Memory.respond, h.live?_eq key hc now (Nat.le_refl now)], h⟩
  | keys stem => exact ⟨by simp only [Memory.respond, h.liveUnder_eq hc], h⟩
  | entries stem => exact ⟨by simp only [Memory.respond, h.liveUnder_eq hc], h⟩
  | put key value lifetime =>
    cases lifetime with
    | none => exact ⟨rfl, h.insert key _⟩
    | some d =>
      simp only [Memory.respond]
      cases deadline? now d with
      | some deadline => exact ⟨rfl, h.insert key _⟩
      | none => exact ⟨rfl, h⟩
  | delete key => exact ⟨rfl, h.erase key⟩
  | take key => exact ⟨by simp only [Memory.respond, h.live?_eq key hc now (Nat.le_refl now)], h.erase key⟩
  | flush => exact ⟨rfl, h.closed_eq, h.listing_eq, fun _ _ _ _ => rfl⟩
  | close => exact ⟨rfl, rfl, h.listing_eq, fun _ _ _ _ => rfl⟩

theorem perform (h : Alike K now m m') {c : EngineCall} (hc : Inside K c) :
    (m'.perform now c).1 = (m.perform now c).1 ∧ Alike K now (m.perform now c).2 (m'.perform now c).2 := by
  unfold Memory.perform
  rw [h.closed_eq]
  split
  · exact ⟨rfl, h⟩
  · exact h.respond hc

/-- A call outside of some keys cannot be told from none under them. -/
theorem frame (m : Memory) (now : Nat) {c : EngineCall} (hc : Outside K c) : Alike K now (m.perform now c).2 m := by
  have hne {key key' : String} (hkey : K key) (hkey' : ¬K key') : key ≠ key' := fun heq => hkey' (heq ▸ hkey)
  have herase (key' : String) (hkey' : ¬K key') : Alike K now { m with entries := m.entries.erase key' } m := by
    refine ⟨rfl, rfl, fun key hkey t _ => ?_⟩
    rw [live?_erase, if_neg (hne hkey hkey')]
  have hbecomes := m.becomes_perform now c
  generalize (m.perform now c).2 = m₁ at hbecomes ⊢
  cases hbecomes with
  | same c => exact refl m
  | inserted key' value lifetime =>
    refine ⟨rfl, rfl, fun key hkey t _ => ?_⟩
    rw [live?_insert, if_neg (hne hkey hc)]
  | deleted key' => exact herase key' hc
  | taken key' => exact herase key' hc
  | flushed => exact hc.elim
  | closed => exact hc.elim

/-- Removing an entry that is not live cannot be told from leaving it. -/
theorem erase_of_expired (h : m.live? now key = none) :
    Alike K now { m with entries := m.entries.erase key } m := by
  refine ⟨rfl, rfl, fun key' _ t ht => ?_⟩
  rw [live?_erase]
  split
  · rename_i heq
    subst heq
    refine Option.eq_none_iff_forall_ne_some.mpr fun e he => ?_
    rw [live?_of_later ht he] at h
    cases h
  · rfl

end Alike

end Memory

end Gatehouse
