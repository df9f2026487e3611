import Gatehouse.Proofs.Table
import Gatehouse.Token.Store

/-!
# The records of a store

A store that was filled by saving has every record under its own id, so the id tells the record. Of its records those
are outstanding whose tokens are revoked and have not expired, whatever their kind; each is told of once.
-/

namespace Gatehouse.TokenStore

variable {s : TokenStore} {r : TokenRecord} {id : String} {now : Instant}

/-- Every record is under its own id. -/
def Keyed (s : TokenStore) : Prop := ∀ id r, s.find? id = some r → r.id = id

theorem find?_save (s : TokenStore) (r : TokenRecord) (id : String) :
    (s.save r).find? id = if id = r.id then some r else s.find? id :=
  Table.get?_insert s.records r.id id r

theorem keyed_empty : empty.Keyed := fun _ _ h => nomatch h

theorem Keyed.save (h : s.Keyed) (r : TokenRecord) : (s.save r).Keyed := by
  intro id r' hr'
  rw [find?_save] at hr'
  split at hr'
  · rename_i hid
    rw [hid, Option.some.inj hr']
  · exact h id r' hr'

theorem keyed_ofList (l : List TokenRecord) : (ofList l).Keyed := by
  have hfold (s : TokenStore) (hs : s.Keyed) : (l.foldl TokenStore.save s).Keyed := by
    induction l generalizing s with
    | nil => exact hs
    | cons r l ih => exact ih (s.save r) (hs.save r)
  exact hfold empty keyed_empty

/-- A record is in a store under its own id. -/
def Holds (s : TokenStore) (r : TokenRecord) : Prop := s.find? r.id = some r

theorem Keyed.holds (h : s.Keyed) (hr : s.find? id = some r) : s.Holds r := by
  unfold Holds
  rw [h id r hr, hr]

/-- A record that is saved takes the place of the one with its id. -/
theorem holds_save {r' : TokenRecord} : (s.save r).Holds r' ↔ r' = r ∨ r'.id ≠ r.id ∧ s.Holds r' := by
  unfold Holds
  rw [find?_save]
  by_cases hid : r'.id = r.id
  · rw [if_pos hid]
    refine ⟨fun h => .inl (Option.some.inj h).symm, fun h => ?_⟩
    rcases h with rfl | ⟨hne, -⟩
    · rfl
    · exact absurd hid hne
  · rw [if_neg hid]
    refine ⟨fun h => .inr ⟨hid, h⟩, fun h => ?_⟩
    rcases h with rfl | ⟨-, h⟩
    · exact absurd rfl hid
    · exact h

/-- Saving a record that the store holds changes nothing. -/
theorem save_of_holds (h : s.Holds r) : s.save r = s := by
  refine congrArg (fun t => { s with records := t }) (Table.ext_get? fun id => ?_)
  have hfind := find?_save s r id
  by_cases hid : id = r.id
  · rw [if_pos hid] at hfind
    exact hfind.trans (hid ▸ h.symm)
  · rw [if_neg hid] at hfind
    exact hfind

instance : Decidable (s.Holds r) := inferInstanceAs (Decidable (s.find? r.id = some r))

/-- A store holds one record of an id. -/
theorem Holds.eq {r' : TokenRecord} (h : s.Holds r) (h' : s.Holds r') (hid : r.id = r'.id) : r = r' := by
  unfold Holds at h h'
  rw [hid, h'] at h
  exact (Option.some.inj h).symm

/-- The records whose tokens are revoked and have not expired. -/
def outstanding (s : TokenStore) (now : Instant) : List TokenRecord :=
  (s.records.entries.map Prod.snd).filter fun r => r.isRevoked && !r.isExpired now

theorem mem_outstanding (h : s.Keyed) :
    r ∈ s.outstanding now ↔ s.Holds r ∧ r.isRevoked = true ∧ r.isExpired now = false := by
  unfold outstanding
  rw [List.mem_filter, Bool.and_eq_true, Bool.not_eq_true']
  refine and_congr_left fun _ => ⟨fun hmem => ?_, fun hr => ?_⟩
  · obtain ⟨⟨id, r'⟩, he, rfl⟩ := List.mem_map.mp hmem
    exact h.holds ((Table.mem_entries_iff s.records id r').mp he)
  · exact List.mem_map.mpr ⟨(r.id, r), (Table.mem_entries_iff s.records r.id r).mpr hr, rfl⟩

/-- The store tells of the outstanding records by kind, in an order of its own. -/
theorem revoked_perm (s : TokenStore) (kind : TokenKind) (now : Instant) :
    (s.revoked kind now).Perm ((s.outstanding now).filter fun r => r.kind = kind) := by
  unfold outstanding
  rw [List.filter_filter]
  refine (s.listing.perm _).trans (.of_eq (congrArg (fun p => List.filter p _) (funext fun r => ?_)))
  exact Bool.and_assoc _ _ _

theorem mem_revoked {kind : TokenKind} : r ∈ s.revoked kind now ↔ r ∈ s.outstanding now ∧ r.kind = kind := by
  rw [(s.revoked_perm kind now).mem_iff, List.mem_filter, decide_eq_true_iff]

/-- Asked for all kinds, the store tells of every outstanding record. -/
theorem mem_flatMap_revoked : r ∈ TokenKind.all.flatMap (fun kind => s.revoked kind now) ↔ r ∈ s.outstanding now := by
  rw [List.mem_flatMap]
  refine ⟨fun ⟨_, _, hr⟩ => (mem_revoked.mp hr).1, fun hr => ⟨r.kind, ?_, mem_revoked.mpr ⟨hr, rfl⟩⟩⟩
  cases r.kind <;> decide

/-- Asked for all kinds, the store tells of every outstanding record once. -/
theorem sum_length_revoked (s : TokenStore) (now : Instant) :
    (TokenKind.all.map fun kind => (s.revoked kind now).length).foldl (· + ·) 0 = (s.outstanding now).length := by
  simp only [(s.revoked_perm _ now).length_eq]
  induction s.outstanding now with
  | nil => rfl
  | cons r l ih =>
    rw [List.length_cons, ← ih]
    simp only [TokenKind.all, List.map_cons, List.map_nil, List.foldl_cons, List.foldl_nil, List.filter_cons]
    cases r.kind <;> simp <;> omega

end Gatehouse.TokenStore
