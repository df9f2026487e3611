import Gatehouse.Table

/-!
# Reading tables

What each operation on a table does to the value under a key. A table is known by the values under its keys, so two
tables that answer every key alike are the same.
-/

namespace Gatehouse

/-- Keys of which none comes before itself. -/
class StrictKey (κ : Type) [LT κ] : Prop extends LawfulKey κ where
  lt_irrefl : ∀ a : κ, ¬a < a

instance : StrictKey String where
  lt_irrefl := String.lt_irrefl

instance : StrictKey (List UInt8) where
  lt_irrefl := List.lt_irrefl

namespace Table

variable {κ α : Type}

/-! ## Lists of entries -/

/-- Entries with different keys are different. -/
theorem nodup_of_keys {l : List (κ × α)} (h : (l.map Prod.fst).Nodup) : l.Nodup :=
  List.Pairwise.of_map Prod.fst (fun _ _ hne heq => hne (congrArg Prod.fst heq)) h

section Entries

variable [DecidableEq κ]

/-- The first entry of a list decides what is found under its key. -/
theorem lookup_cons_eq (k k' : κ) (a : α) (l : List (κ × α)) :
    List.lookup k' ((k, a) :: l) = if k' = k then some a else List.lookup k' l := by
  rw [List.lookup_cons]
  by_cases h : k' = k
  · simp [h]
  · simp [h, beq_false_of_ne h]

/-- In entries with every key once, an entry is found under its key. -/
theorem lookup_eq_some_of_mem {l : List (κ × α)} (hl : (l.map Prod.fst).Nodup) {k : κ} {a : α} (h : (k, a) ∈ l) :
    List.lookup k l = some a := by
  induction l with
  | nil => exact absurd h (List.not_mem_nil)
  | cons e rest ih =>
    obtain ⟨k₁, a₁⟩ := e
    rw [List.map_cons, List.nodup_cons] at hl
    rw [lookup_cons_eq]
    rcases List.mem_cons.mp h with heq | hmem
    · obtain ⟨rfl, rfl⟩ := Prod.mk.inj heq
      rw [if_pos rfl]
    · have hne : k ≠ k₁ := by
        rintro rfl
        exact hl.1 (List.mem_map.mpr ⟨(k, a), hmem, rfl⟩)
      rw [if_neg hne]
      exact ih hl.2 hmem

/-- What is found under a key is an entry. -/
theorem mem_of_lookup_eq_some {l : List (κ × α)} {k : κ} {a : α} (h : List.lookup k l = some a) : (k, a) ∈ l := by
  induction l with
  | nil => cases h
  | cons e rest ih =>
    obtain ⟨k₁, a₁⟩ := e
    rw [lookup_cons_eq] at h
    by_cases hk : k = k₁
    · rw [if_pos hk] at h
      obtain rfl := Option.some.inj h
      exact hk ▸ List.mem_cons_self
    · rw [if_neg hk] at h
      exact List.mem_cons_of_mem _ (ih h)

/-- What is found after an entry has been put at its place. -/
theorem lookup_insertEntry [LT κ] [DecidableLT κ] (k k' : κ) (a : α) (l : List (κ × α)) :
    List.lookup k' (insertEntry k a l) = if k' = k then some a else List.lookup k' l := by
  induction l with
  | nil => rw [insertEntry, lookup_cons_eq]
  | cons e rest ih =>
    obtain ⟨k₁, a₁⟩ := e
    rw [insertEntry]
    by_cases h₁ : k = k₁
    · subst h₁
      rw [if_pos rfl, lookup_cons_eq, lookup_cons_eq]
      by_cases h : k' = k
      · rw [if_pos h, if_pos h]
      · rw [if_neg h, if_neg h, if_neg h]
    · rw [if_neg h₁]
      by_cases h₂ : k < k₁
      · rw [if_pos h₂, lookup_cons_eq]
      · rw [if_neg h₂, lookup_cons_eq, ih, lookup_cons_eq]
        by_cases h : k' = k
        · subst h
          rw [if_neg h₁, if_pos rfl, if_pos rfl]
        · rw [if_neg h, if_neg h]

end Entries

section Ascending

variable [LT κ] [StrictKey κ]

/-- Entries that ascend have every key once. -/
theorem nodup_of_ascending {l : List (κ × α)} (h : l.Pairwise fun e e' => e.1 < e'.1) : (l.map Prod.fst).Nodup := by
  rw [List.Nodup, List.pairwise_map]
  refine h.imp fun {e e'} hlt heq => ?_
  rw [heq] at hlt
  exact StrictKey.lt_irrefl _ hlt

/-- Entries that ascend are known by which entries there are. -/
theorem eq_of_ascending {l l' : List (κ × α)} (h : l.Pairwise fun e e' => e.1 < e'.1)
    (h' : l'.Pairwise fun e e' => e.1 < e'.1) (hmem : ∀ e, e ∈ l ↔ e ∈ l') : l = l' := by
  have hnodup := nodup_of_keys (nodup_of_ascending h)
  have hnodup' := nodup_of_keys (nodup_of_ascending h')
  refine ((List.perm_ext_iff_of_nodup hnodup hnodup').mpr hmem).eq_of_pairwise (fun a b _ _ hab hba => ?_) h h'
  exact absurd (LawfulKey.lt_trans hab hba) (StrictKey.lt_irrefl a.1)

end Ascending

/-! ## Tables -/

variable [LT κ] [DecidableEq κ]

/-- Setting the value of a key changes what is under that key, and nothing else. -/
@[simp]
theorem get?_insert [DecidableLT κ] [LawfulKey κ] (t : Table κ α) (k k' : κ) (a : α) :
    (t.insert k a).get? k' = if k' = k then some a else t.get? k' :=
  lookup_insertEntry k k' a t.entries

variable [StrictKey κ]

/-- The entries of a table are its keys with what is under them. -/
theorem mem_entries_iff (t : Table κ α) (k : κ) (a : α) : (k, a) ∈ t.entries ↔ t.get? k = some a :=
  ⟨lookup_eq_some_of_mem (nodup_of_ascending t.ascending), mem_of_lookup_eq_some⟩

/-- A filtered table has the values that satisfy the condition. -/
@[simp]
theorem get?_filter (t : Table κ α) (p : κ → α → Bool) (k : κ) :
    (t.filter p).get? k = (t.get? k).filter (p k) := by
  refine Option.ext ?_
  intro a
  rw [← mem_entries_iff, Option.filter_eq_some_iff, ← mem_entries_iff]
  simp [filter, List.mem_filter]

/-- Removing a key leaves the other keys as they were. -/
@[simp]
theorem get?_erase (t : Table κ α) (k k' : κ) : (t.erase k).get? k' = if k' = k then none else t.get? k' := by
  rw [erase, get?_filter]
  by_cases h : k' = k
  · rw [if_pos h]
    cases t.get? k' <;> simp [h]
  · rw [if_neg h]
    cases t.get? k' <;> simp [h]

/-- Removing keys one after another leaves the other keys as they were. -/
theorem get?_foldl_erase (keys : List κ) (t : Table κ α) (k : κ) :
    (keys.foldl erase t).get? k = if k ∈ keys then none else t.get? k := by
  induction keys generalizing t with
  | nil => rw [List.foldl_nil, if_neg List.not_mem_nil]
  | cons key keys ih =>
    rw [List.foldl_cons, ih, get?_erase]
    by_cases hkeys : k ∈ keys
    · rw [if_pos hkeys, if_pos (List.mem_cons_of_mem _ hkeys)]
    · by_cases hkey : k = key
      · rw [if_neg hkeys, if_pos hkey, if_pos (List.mem_cons.mpr (.inl hkey))]
      · rw [if_neg hkeys, if_neg hkey, if_neg (fun hmem => (List.mem_cons.mp hmem).elim hkey hkeys)]

/-- Two tables that answer every key alike are the same. -/
theorem ext_get? {t t' : Table κ α} (h : ∀ k, t.get? k = t'.get? k) : t = t' := by
  refine Table.ext (eq_of_ascending t.ascending t'.ascending ?_)
  intro e
  rw [mem_entries_iff, mem_entries_iff, h]

/-! ## Tables of lists -/

variable [DecidableLT κ]

theorem get?_foldl_insert {l : List (κ × α)} (hl : (l.map Prod.fst).Nodup) (t : Table κ α) (k : κ) :
    (l.foldl (fun t e => t.insert e.1 e.2) t).get? k = (l.lookup k).or (t.get? k) := by
  induction l generalizing t with
  | nil => rfl
  | cons e rest ih =>
    rw [List.map_cons, List.nodup_cons] at hl
    rw [List.foldl_cons, ih hl.2, get?_insert, lookup_cons_eq]
    by_cases hk : k = e.1
    · have hrest : rest.lookup k = none := by
        refine Option.eq_none_iff_forall_ne_some.mpr fun a ha => hl.1 ?_
        exact List.mem_map.mpr ⟨(k, a), mem_of_lookup_eq_some ha, hk⟩
      rw [if_pos hk, if_pos hk, hrest]
      rfl
    · rw [if_neg hk, if_neg hk]

theorem mem_entries_ofList_iff {l : List (κ × α)} (hl : (l.map Prod.fst).Nodup) (e : κ × α) :
    e ∈ (ofList l).entries ↔ e ∈ l := by
  have hget : (ofList l).get? e.1 = l.lookup e.1 := by
    rw [ofList, get?_foldl_insert hl]
    exact Option.or_none
  rw [mem_entries_iff, hget]
  exact ⟨mem_of_lookup_eq_some, lookup_eq_some_of_mem hl⟩

/-- The table of entries that ascend lists them as they are. -/
theorem entries_ofList {l : List (κ × α)} (h : l.Pairwise fun e e' => e.1 < e'.1) : (ofList l).entries = l :=
  eq_of_ascending (ofList l).ascending h (mem_entries_ofList_iff (nodup_of_ascending h))

/-- A list in which every key is there once has the entries of its table. -/
theorem entries_ofList_perm {l : List (κ × α)} (hl : (l.map Prod.fst).Nodup) : (ofList l).entries.Perm l := by
  have hnodup := nodup_of_keys (nodup_of_ascending (ofList l).ascending)
  exact (List.perm_ext_iff_of_nodup hnodup (nodup_of_keys hl)).mpr (mem_entries_ofList_iff hl)

theorem insert_erase (t : Table κ α) (k : κ) (a : α) : (t.erase k).insert k a = t.insert k a := by
  refine ext_get? fun k' => ?_
  rw [get?_insert, get?_insert, get?_erase]
  split <;> rfl

/-- The table of a list in which every key is there once does not depend on the order of the list. -/
theorem ofList_perm {l l' : List (κ × α)} (h : l.Perm l') (hl : (l.map Prod.fst).Nodup) : ofList l = ofList l' := by
  have hl' : (l'.map Prod.fst).Nodup := (h.map Prod.fst).nodup_iff.mp hl
  refine Table.ext (eq_of_ascending (ofList l).ascending (ofList l').ascending fun e => ?_)
  rw [mem_entries_ofList_iff hl, mem_entries_ofList_iff hl', h.mem_iff]

/-- A table is the table of its entries, in whatever order they come. -/
theorem ofList_of_perm {l : List (κ × α)} {t : Table κ α} (h : l.Perm t.entries) : ofList l = t :=
  (ofList_perm h.symm (nodup_of_ascending t.ascending)).symm.trans (Table.ext (entries_ofList t.ascending))

end Table

end Gatehouse
