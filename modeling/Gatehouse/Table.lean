/-!
# Finite maps in key order

A table holds at most one value per key and lists its entries by ascending key, which is the order in which the
embedded store and the server show them. Two tables with the same entries are the same table. What a hash map holds is
a table too; in which order it lists its entries is said by a `Listing`.
-/

namespace Gatehouse

/-- Keys that one order puts in line. -/
class LawfulKey (κ : Type) [LT κ] : Prop where
  lt_trans : ∀ {a b c : κ}, a < b → b < c → a < c
  eq_of_not_lt : ∀ {a b : κ}, ¬a < b → ¬b < a → a = b

instance : LawfulKey String where
  lt_trans := String.lt_trans
  eq_of_not_lt h₁ h₂ := String.le_antisymm (String.not_lt.mp h₂) (String.not_lt.mp h₁)

instance : LawfulKey (List UInt8) where
  lt_trans := List.lt_trans
  eq_of_not_lt h₁ h₂ := List.le_antisymm h₂ h₁

/-- A finite map, listed by ascending key. -/
@[ext]
structure Table (κ α : Type) [LT κ] where
  entries : List (κ × α)
  ascending : entries.Pairwise fun e e' => e.1 < e'.1

namespace Table

variable {κ α β : Type} [LT κ]

/-- The table without entries. -/
def empty : Table κ α := ⟨[], .nil⟩

instance : Inhabited (Table κ α) := ⟨empty⟩

/-- The keys, ascending. -/
def keys (t : Table κ α) : List κ := t.entries.map Prod.fst

/-- The number of entries. -/
def size (t : Table κ α) : Nat := t.entries.length

/-- Keeps the entries that satisfy a condition. -/
def filter (p : κ → α → Bool) (t : Table κ α) : Table κ α := ⟨t.entries.filter fun e => p e.1 e.2, t.ascending.filter _⟩

/-- Applies a function to every value. -/
def map (f : α → β) (t : Table κ α) : Table κ β :=
  ⟨t.entries.map fun e => (e.1, f e.2), List.pairwise_map.mpr t.ascending⟩

section Lookup

variable [DecidableEq κ]

/-- The value under a key. -/
def get? (t : Table κ α) (k : κ) : Option α := t.entries.lookup k

/-- Removes a key with its value. -/
def erase (t : Table κ α) (k : κ) : Table κ α := t.filter fun k' _ => k' ≠ k

end Lookup

variable [DecidableEq κ] [DecidableLT κ]

/-- Puts an entry at its place among entries that ascend, in place of one with the same key. -/
def insertEntry (k : κ) (a : α) : List (κ × α) → List (κ × α)
  | [] => [(k, a)]
  | (k', a') :: rest =>
    if k = k' then (k, a) :: rest
    else if k < k' then (k, a) :: (k', a') :: rest
    else (k', a') :: insertEntry k a rest

/-- An entry that has been put into a list is the new one or was there before. -/
theorem mem_insertEntry {k : κ} {a : α} {e : κ × α} {l : List (κ × α)} (h : e ∈ insertEntry k a l) :
    e = (k, a) ∨ e ∈ l := by
  induction l with
  | nil => exact .inl (List.mem_singleton.mp h)
  | cons e' rest ih =>
    rw [insertEntry] at h
    split at h
    · exact (List.mem_cons.mp h).imp_right (List.mem_cons_of_mem _)
    · split at h
      · exact List.mem_cons.mp h
      · rcases List.mem_cons.mp h with h | h
        · exact .inr (h ▸ List.mem_cons_self)
        · exact (ih h).imp_right (List.mem_cons_of_mem _)

/-- Entries that ascend still do after one has been put at its place. -/
theorem pairwise_insertEntry [LawfulKey κ] {k : κ} {a : α} {l : List (κ × α)} (h : l.Pairwise fun e e' => e.1 < e'.1) :
    (insertEntry k a l).Pairwise fun e e' => e.1 < e'.1 := by
  induction h with
  | nil => exact List.pairwise_singleton _ _
  | @cons e' rest hlt hrest ih =>
    rw [insertEntry]
    split
    · next heq => exact .cons (fun e he => heq ▸ hlt e he) hrest
    · split
      · next hk =>
        refine .cons (fun e he => ?_) (.cons hlt hrest)
        rcases List.mem_cons.mp he with rfl | he
        · exact hk
        · exact LawfulKey.lt_trans hk (hlt e he)
      · next hne hk =>
        refine .cons (fun e he => ?_) ih
        rcases mem_insertEntry he with rfl | he
        · exact Decidable.by_contra fun hk' => hne (LawfulKey.eq_of_not_lt hk hk')
        · exact hlt e he

variable [LawfulKey κ]

/-- Sets the value under a key. -/
def insert (t : Table κ α) (k : κ) (a : α) : Table κ α := ⟨insertEntry k a t.entries, pairwise_insertEntry t.ascending⟩

/-- The table of a list of entries, in which a later entry replaces an earlier one with the same key. -/
def ofList (l : List (κ × α)) : Table κ α := l.foldl (fun t e => t.insert e.1 e.2) empty

end Table

/-- The order in which a hash map lists entries. Nothing is known of it but that each is listed as often as it is
there. -/
structure Listing (α : Type) where
  arrange : List α → List α
  perm : ∀ l, (arrange l).Perm l

namespace Listing

/-- The entries as the table has them, by ascending key. -/
def ascending {α : Type} : Listing α := ⟨fun l => l, List.Perm.refl⟩

end Listing

end Gatehouse
