import Gatehouse.Cache.Embedded
import Gatehouse.Proofs.Table
import Gatehouse.Proofs.Text.Bytes

/-!
# Reading the embedded store

A disk is legible when every key on it is the octets of a text and every value the octets of an entry. Nothing else is
ever written, so no read and no scan finds a corrupt entry: each finds the live entry of a key, or the live entries
under a text in the order of their octets.
-/

namespace Gatehouse

namespace Stored

/-- An entry comes back from its octets. -/
theorem ofBytes?_toBytes {e : Stored} (h : e.deadline ≤ maxDeadline) : ofBytes? (toBytes e) = some e := by
  have hlength : (Bytes.ofNat headerLength e.deadline).length = headerLength := Bytes.length_ofNat _ _
  have hdeadline : Bytes.toNat (Bytes.ofNat headerLength e.deadline) = e.deadline :=
    Bytes.toNat_ofNat (Nat.lt_of_le_of_lt h (by decide))
  unfold ofBytes? toBytes
  rw [if_neg (by rw [List.length_append, hlength]; omega), List.take_left' hlength, List.drop_left' hlength, hdeadline]

theorem deadlineAt_le (nowMillis : Nat) (lifetime : Option Span) : deadlineAt nowMillis lifetime ≤ maxDeadline := by
  cases lifetime with
  | none => exact Nat.zero_le _
  | some d =>
    unfold deadlineAt
    have hmax : 1 ≤ maxDeadline := by decide
    simp only
    omega

end Stored

namespace Embedded

/-- Octets of a key and a value that have been written. -/
def Legible (k raw : Bytes) : Prop :=
  ∃ (key : String) (e : Stored), e.deadline ≤ Stored.maxDeadline ∧ k = Bytes.ofText key ∧ raw = e.toBytes

/-- Everything on a disk has been written. -/
def AllLegible (disk : Table Bytes Bytes) : Prop := ∀ entry ∈ disk.entries, Legible entry.1 entry.2

/-- The entry of a key, expired or not. -/
def stored? (disk : Table Bytes Bytes) (key : String) : Option Stored :=
  (disk.get? (Bytes.ofText key)).bind Stored.ofBytes?

/-- The entry of a key, if it is live. -/
def live? (disk : Table Bytes Bytes) (nowMillis : Nat) (key : String) : Option Stored :=
  (stored? disk key).filter fun e => !e.isExpired nowMillis

variable {disk : Table Bytes Bytes} {now : Nat} {key stem : String}

/-! ## What stays legible -/

theorem AllLegible.empty : AllLegible Table.empty := fun _ h => absurd h List.not_mem_nil

theorem AllLegible.insert (h : AllLegible disk) (key : String) {e : Stored} (he : e.deadline ≤ Stored.maxDeadline) :
    AllLegible (disk.insert (Bytes.ofText key) e.toBytes) := by
  intro entry hentry
  rcases Table.mem_insertEntry hentry with rfl | hold
  · exact ⟨key, e, he, rfl, rfl⟩
  · exact h entry hold

theorem AllLegible.erase (h : AllLegible disk) (k : Bytes) : AllLegible (disk.erase k) :=
  fun entry hentry => h entry (List.mem_filter.mp hentry).1

/-! ## Entries by key -/

/-- On a legible disk the octets of a key are the octets of its entry. -/
theorem AllLegible.ofBytes? (h : AllLegible disk) {raw : Bytes} (hraw : disk.get? (Bytes.ofText key) = some raw) :
    ∃ e : Stored, raw = e.toBytes ∧ Stored.ofBytes? raw = some e := by
  obtain ⟨key', e, he, -, heq⟩ := h _ ((Table.mem_entries_iff _ _ _).mpr hraw)
  subst heq
  exact ⟨e, rfl, Stored.ofBytes?_toBytes he⟩

theorem stored?_insert (key k : String) {e : Stored} (he : e.deadline ≤ Stored.maxDeadline) :
    stored? (disk.insert (Bytes.ofText key) e.toBytes) k = if k = key then some e else stored? disk k := by
  unfold stored?
  rw [Table.get?_insert]
  by_cases hk : k = key
  · rw [if_pos hk, if_pos (congrArg Bytes.ofText hk), Option.bind_some, Stored.ofBytes?_toBytes he]
  · rw [if_neg hk, if_neg (mt Bytes.ofText_inj.mp hk)]

theorem stored?_erase (key k : String) :
    stored? (disk.erase (Bytes.ofText key)) k = if k = key then none else stored? disk k := by
  unfold stored?
  rw [Table.get?_erase]
  by_cases hk : k = key
  · rw [if_pos hk, if_pos (congrArg Bytes.ofText hk), Option.bind_none]
  · rw [if_neg hk, if_neg (mt Bytes.ofText_inj.mp hk)]

theorem live?_erase_of_expired (h : live? disk now key = none) (k : String) :
    live? (disk.erase (Bytes.ofText key)) now k = live? disk now k := by
  unfold live?
  rw [stored?_erase]
  split
  · rename_i heq
    rw [heq]
    exact h.symm
  · rfl

/-! ## Point reads -/

/-- A point read finds the live entry of its key; it leaves the disk alone, or removes an entry that has expired. -/
theorem read_eq (h : AllLegible disk) (now : Nat) (key : String) :
    (read disk now key).1 = .ok (live? disk now key) ∧
      ((read disk now key).2 = disk ∨
        (read disk now key).2 = disk.erase (Bytes.ofText key) ∧ live? disk now key = none) := by
  unfold read live? stored?
  cases hraw : disk.get? (Bytes.ofText key) with
  | none => exact ⟨rfl, .inl rfl⟩
  | some raw =>
    obtain ⟨e, -, he⟩ := h.ofBytes? hraw
    simp only [classify, he, Option.bind_some]
    cases hexp : e.isExpired now with
    | true =>
      have hgone : (some e).filter (fun e => !e.isExpired now) = none := Option.filter_some_neg (by simp [hexp])
      refine ⟨congrArg _ hgone.symm, .inr ⟨?_, hgone⟩⟩
      exact if_pos hraw
    | false => exact ⟨congrArg _ (Option.filter_some_pos (by simp [hexp])).symm, .inl rfl⟩

theorem read_allLegible (h : AllLegible disk) (now : Nat) (key : String) : AllLegible (read disk now key).2 := by
  rcases (read_eq h now key).2 with heq | ⟨heq, -⟩
  · rw [heq]
    exact h
  · rw [heq]
    exact h.erase _

/-- A point read changes no live entry. -/
theorem live?_read (h : AllLegible disk) (now : Nat) (key k : String) :
    live? (read disk now key).2 now k = live? disk now k := by
  rcases (read_eq h now key).2 with heq | ⟨heq, hgone⟩
  · rw [heq]
  · rw [heq]
    exact live?_erase_of_expired hgone k

/-! ## Scans -/

/-- What a scan makes of an entry on a legible disk. -/
def shown (now : Nat) (entry : Bytes × Bytes) : Option (String × Stored) := do
  let key ← Bytes.text? entry.1
  let e ← Stored.ofBytes? entry.2
  if e.isExpired now then none else some (key, e)

theorem Legible.shown_eq {k raw : Bytes} (h : Legible k raw) (now : Nat) :
    scanEntry now k raw = pure (shown now (k, raw)) := by
  obtain ⟨key, e, he, rfl, rfl⟩ := h
  unfold scanEntry shown Stored.parse
  rw [Bytes.text?_ofText, Stored.ofBytes?_toBytes he]
  rfl

/-- A scan of a legible disk shows the entries under its text. -/
theorem scan_eq (h : AllLegible disk) (now : Nat) (stem : String) :
    scan disk now stem =
      .ok ((disk.entries.filter fun e => (Bytes.ofText stem).isPrefixOf e.1).filterMap (shown now)) := by
  have hunder : ∀ e ∈ disk.entries.filter (fun e => (Bytes.ofText stem).isPrefixOf e.1),
      scanEntry now e.1 e.2 = pure (shown now e) :=
    fun e he => (h e (List.mem_filter.mp he).1).shown_eq now
  simp only [scan, mapM_of_forall_pure hunder]
  change Except.ok _ = _
  rw [List.filterMap_map]
  rfl

theorem shown_eq_some {entry : Bytes × Bytes} {e : Stored} (h : Legible entry.1 entry.2) :
    shown now entry = some (key, e) ↔
      entry.1 = Bytes.ofText key ∧ Stored.ofBytes? entry.2 = some e ∧ e.isExpired now = false := by
  obtain ⟨key', e', he, hkey, hraw⟩ := h
  have hshown : shown now entry = if e'.isExpired now then none else some (key', e') := by
    unfold shown
    rw [hkey, hraw, Bytes.text?_ofText, Stored.ofBytes?_toBytes he]
    rfl
  rw [hshown, hkey, hraw, Stored.ofBytes?_toBytes he, Bytes.ofText_inj, Option.some_inj]
  constructor
  · intro h
    split at h
    · cases h
    · rename_i hlive
      obtain ⟨rfl, rfl⟩ := Prod.mk.inj (Option.some.inj h)
      exact ⟨rfl, rfl, Bool.not_eq_true _ ▸ hlive⟩
  · rintro ⟨rfl, rfl, hlive⟩
    rw [hlive]
    rfl

/-- A scan shows exactly the live entries whose keys start with its text. -/
theorem mem_shown (h : AllLegible disk) {e : Stored} :
    (key, e) ∈ (disk.entries.filter fun e => (Bytes.ofText stem).isPrefixOf e.1).filterMap (shown now) ↔
      startsWith stem key = true ∧ live? disk now key = some e := by
  rw [List.mem_filterMap]
  unfold live? stored?
  rw [Option.filter_eq_some_iff, Option.bind_eq_some_iff, Bool.not_eq_true']
  constructor
  · rintro ⟨⟨k, raw⟩, hentry, hshown⟩
    obtain ⟨hmem, hstem⟩ := List.mem_filter.mp hentry
    obtain ⟨rfl, hraw, hlive⟩ := (shown_eq_some (h _ hmem)).mp hshown
    rw [Bytes.isPrefixOf_ofText] at hstem
    exact ⟨hstem, ⟨raw, (Table.mem_entries_iff _ _ _).mp hmem, hraw⟩, hlive⟩
  · rintro ⟨hstem, ⟨raw, hget, hraw⟩, hlive⟩
    have hmem := (Table.mem_entries_iff _ _ _).mpr hget
    refine ⟨(Bytes.ofText key, raw), List.mem_filter.mpr ⟨hmem, ?_⟩, (shown_eq_some (h _ hmem)).mpr ⟨rfl, hraw, hlive⟩⟩
    rw [Bytes.isPrefixOf_ofText]
    exact hstem

/-- A scan shows its entries by the octets of their keys, ascending. -/
theorem shown_ascending (h : AllLegible disk) (now : Nat) (stem : String) :
    ((disk.entries.filter fun e => (Bytes.ofText stem).isPrefixOf e.1).filterMap (shown now)).Pairwise
      fun a b => Bytes.ofText a.1 < Bytes.ofText b.1 := by
  have hpair : (disk.entries.filter fun e => (Bytes.ofText stem).isPrefixOf e.1).Pairwise fun a b =>
      a.1 < b.1 ∧ Legible a.1 a.2 ∧ Legible b.1 b.2 := by
    refine (List.Pairwise.and_mem.mp (disk.ascending.filter _)).imp fun {a b} hab => ?_
    exact ⟨hab.2.2, h a (List.mem_filter.mp hab.1).1, h b (List.mem_filter.mp hab.2.1).1⟩
  refine hpair.filterMap _ ?_
  rintro a b ⟨hlt, ha, hb⟩ x hx y hy
  rw [← ((shown_eq_some ha).mp hx).1, ← ((shown_eq_some hb).mp hy).1]
  exact hlt

end Embedded

end Gatehouse
