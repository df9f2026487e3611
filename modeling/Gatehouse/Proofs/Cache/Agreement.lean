import Gatehouse.Proofs.Cache.Refinement
import Gatehouse.Proofs.Table
import Gatehouse.Proofs.Text.Bytes

/-!
# Engines that answer alike

Two engines that stand for the same map answer every call alike: the scans of one are a rearrangement of the scans of
the other, a scan that fails on one fails on the other, and all other answers are equal.
-/

namespace Gatehouse

open Json

/-! ## Reading the entries of a scan -/

namespace Cache

variable {α : Type} [FromJson α] {l l' : List (String × Bytes)}

/-- What a scan makes of an entry that can be read or passed over. -/
def readable (e : String × Bytes) : Option (String × α) :=
  match readLenient (α := α) e.2 with
  | .ok a => a.map fun a => (e.1, a)
  | .error _ => none

theorem readable_key {e : String × Bytes} {x : String × α} (h : readable e = some x) : x.1 = e.1 := by
  unfold readable at h
  split at h
  · obtain ⟨a, -, rfl⟩ := Option.map_eq_some_iff.mp h
    rfl
  · cases h

/-- Reading keeps the keys in their order and drops some. -/
theorem keys_readable (l : List (String × Bytes)) :
    ((l.filterMap (readable (α := α))).map Prod.fst).Sublist (l.map Prod.fst) := by
  induction l with
  | nil => exact .slnil
  | cons e rest ih =>
    rw [List.filterMap_cons]
    split
    · exact ih.cons _
    · rename_i x hx
      rw [List.map_cons, List.map_cons, readable_key hx]
      exact ih.cons_cons _

theorem readEntries_ok (h : ∀ e ∈ l, ∃ a, readLenient (α := α) e.2 = .ok a) :
    readEntries (α := α) l = .ok (l.filterMap readable) := by
  have hread : ∀ e ∈ l, (do return (← readLenient (α := α) e.2).map fun a => (e.1, a) : Except CacheError _) =
      pure (readable e) := by
    intro e he
    obtain ⟨a, ha⟩ := h e he
    unfold readable
    rw [ha]
    rfl
  unfold readEntries
  rw [mapM_of_forall_pure hread]
  change Except.ok _ = _
  rw [List.filterMap_map]
  rfl

theorem read_error {b : Bytes} {e : CacheError} (h : read (α := α) b = .error e) : ∃ d, e = .decoding d := by
  unfold read at h
  cases hd : decode (α := α) b with
  | ok a =>
    rw [hd] at h
    cases h
  | error d =>
    rw [hd] at h
    cases h
    exact ⟨d, rfl⟩

theorem readLenient_error {b : Bytes} {e : CacheError} (h : readLenient (α := α) b = .error e) :
    ∃ d, e = .decoding d := by
  unfold readLenient at h
  split at h
  · cases h
  · rename_i e' he'
    split at h
    · cases h
    · cases h
      exact read_error he'

/-- One entry that cannot be read fails a scan. -/
theorem readEntries_error (h : ∃ e ∈ l, ∃ cause, readLenient (α := α) e.2 = .error cause) :
    ∃ d, readEntries (α := α) l = .error (.decoding d) := by
  have hfail (e : String × Bytes) (cause : CacheError)
      (hcause : (do return (← readLenient (α := α) e.2).map fun a => (e.1, a) : Except CacheError _) = .error cause) :
      ∃ d, cause = .decoding d := by
    cases hread : readLenient (α := α) e.2 with
    | ok a =>
      rw [hread] at hcause
      cases hcause
    | error cause' =>
      rw [hread] at hcause
      cases hcause
      exact readLenient_error hread
  obtain ⟨e, he, cause, hcause⟩ := h
  obtain ⟨_, ⟨d, rfl⟩, hd⟩ := mapM_error hfail ⟨e, he, cause, by rw [hcause]; rfl⟩
  unfold readEntries
  rw [hd]
  exact ⟨d, rfl⟩

/-- The entries of a scan can all be read or passed over, or the scan fails. -/
theorem readEntries_cases (l : List (String × Bytes)) :
    (∀ e ∈ l, ∃ a, readLenient (α := α) e.2 = .ok a) ∨
      ∃ e ∈ l, ∃ cause, readLenient (α := α) e.2 = .error cause := by
  refine Classical.or_iff_not_imp_right.mpr ?_
  intro h e he
  cases hread : readLenient (α := α) e.2 with
  | ok a => exact ⟨a, rfl⟩
  | error cause => exact absurd ⟨e, he, cause, hread⟩ h

theorem readEntries_map_error {β : Type} {f : List (String × α) → β} {e : CacheError}
    (h : (readEntries l).map f = .error e) : ∃ d, e = .decoding d := by
  rcases readEntries_cases (α := α) l with hok | herror
  · rw [readEntries_ok hok] at h
    cases h
  · obtain ⟨d, hd⟩ := readEntries_error herror
    rw [hd] at h
    cases h
    exact ⟨d, rfl⟩

/-- Two orders of the same entries are both read, or both fail. -/
theorem readEntries_perm (h : l.Perm l') :
    (readEntries (α := α) l = .ok (l.filterMap readable) ∧ readEntries (α := α) l' = .ok (l'.filterMap readable)) ∨
      ∃ d d', readEntries (α := α) l = .error (.decoding d) ∧ readEntries (α := α) l' = .error (.decoding d') := by
  rcases readEntries_cases (α := α) l with hok | ⟨e, he, hcause⟩
  · exact .inl ⟨readEntries_ok hok, readEntries_ok fun e he => hok e (h.symm.subset he)⟩
  · obtain ⟨d, hd⟩ := readEntries_error ⟨e, he, hcause⟩
    obtain ⟨d', hd'⟩ := readEntries_error ⟨e, h.subset he, hcause⟩
    exact .inr ⟨d, d', hd, hd'⟩

end Cache

/-! ## Answers to one call -/

/-- Two results are alike in their values, or both fail because something stored cannot be read, or are the same
failure. -/
def AlikeResults {β : Type} (S : β → β → Prop) : Except CacheError β → Except CacheError β → Prop
  | .ok a, .ok a' => S a a'
  | .error (.decoding _), .error (.decoding _) => True
  | .error e, .error e' => e = e'
  | _, _ => False

open CacheCall in
/-- Two answers to a call are alike. Scans are compared as sets; scans that fail are compared up to which entry could
not be read. -/
def CacheCall.Alike : (c : CacheCall) → Except CacheError c.Reply → Except CacheError c.Reply → Prop
  | keys _, .ok l, .ok l' => l.Nodup ∧ l.Perm l'
  | values _ _, r, r' => AlikeResults List.Perm r r'
  | items _ _, r, r' => AlikeResults Eq r r'
  | _, r, r' => r = r'

namespace Contents

variable {v : Contents} {o o' : ScanOrder} {stem : String} {l l' : List (String × Bytes)}

/-- Two lists of the same slots are a rearrangement of each other. -/
theorem Lists.perm (h : v.Lists o stem l) (h' : v.Lists o' stem l') : l.Perm l' := by
  have hnodup {l : List (String × Bytes)} (hl : (l.map Prod.fst).Nodup) : l.Nodup :=
    List.Pairwise.of_map Prod.fst (fun a b hne heq => hne (by rw [heq])) hl
  refine (List.perm_ext_iff_of_nodup (hnodup h.nodup) (hnodup h'.nodup)).mpr ?_
  rintro ⟨k, b⟩
  rw [h.mem_iff, h'.mem_iff]

end Contents

namespace ExpiringMap

variable {m : ExpiringMap} {o o' : ScanOrder} {now : Nat} {c : CacheCall} {r r' : Except CacheError c.Reply}

theorem Replies.alike (h : m.Replies o now c r) (h' : m.Replies o' now c r') : c.Alike r r' := by
  cases c with
  | keys stem =>
    obtain ⟨l, hl, rfl⟩ := h
    obtain ⟨l', hl', rfl⟩ := h'
    exact ⟨hl.nodup, (hl.perm hl').map Prod.fst⟩
  | values α stem =>
    obtain ⟨l, hl, rfl⟩ := h
    obtain ⟨l', hl', rfl⟩ := h'
    rcases Cache.readEntries_perm (α := α) (hl.perm hl') with ⟨hok, hok'⟩ | ⟨d, d', herror, herror'⟩
    · rw [hok, hok']
      exact ((hl.perm hl').filterMap _).map Prod.snd
    · rw [herror, herror']
      trivial
  | items α stem =>
    obtain ⟨l, hl, rfl⟩ := h
    obtain ⟨l', hl', rfl⟩ := h'
    rcases Cache.readEntries_perm (α := α) (hl.perm hl') with ⟨hok, hok'⟩ | ⟨d, d', herror, herror'⟩
    · rw [hok, hok']
      exact Table.ofList_perm ((hl.perm hl').filterMap _) (hl.nodup.sublist (Cache.keys_readable (α := α) l))
    · rw [herror, herror']
      trivial
  | _ => exact h.trans h'.symm

/-- Equal failures are alike. -/
theorem alike_error (c : CacheCall) (e : CacheError) : c.Alike (.error e) (.error e) := by
  cases c with
  | values | items => cases e <;> trivial
  | _ => rfl

/-- Two answers that the map allows are alike. -/
theorem Answers.alike (h : m.Answers o now c r) (h' : m.Answers o' now c r') : c.Alike r r' := by
  unfold Answers at h h'
  cases hcode : c.unencodable? with
  | some e =>
    simp only [hcode] at h h'
    rw [h, h']
    exact alike_error c _
  | none =>
    simp only [hcode] at h h'
    split at h
    · rename_i hclosed
      rw [if_pos hclosed] at h'
      rw [h, h']
      exact alike_error c _
    · rename_i hopen
      rw [if_neg hopen] at h'
      exact Replies.alike h h'

/-- An open map fails a call only for a key that is absent or a value that cannot be read. -/
theorem Replies.error_cases {e : CacheError} (h : m.Replies o now c (.error e)) :
    e = .keyNotFound ∨ ∃ d, e = .decoding d := by
  cases c with
  | get α key =>
    simp only [Replies] at h
    split at h
    · exact .inr (Cache.read_error h.symm)
    · exact .inl (Except.error.inj h)
  | remaining key =>
    simp only [Replies] at h
    split at h
    · cases h
    · exact .inl (Except.error.inj h)
  | keys stem =>
    obtain ⟨l, -, hl⟩ := h
    cases hl
  | values α stem =>
    obtain ⟨l, -, hl⟩ := h
    exact .inr (Cache.readEntries_map_error hl.symm)
  | items α stem =>
    obtain ⟨l, -, hl⟩ := h
    exact .inr (Cache.readEntries_map_error hl.symm)
  | _ => cases h

/-- The map never answers that an entry is corrupt. -/
theorem Answers.ne_corrupt (h : m.Answers o now c r) (key : String) : r ≠ .error (.corruptEntry key) := by
  rintro rfl
  unfold Answers at h
  split at h
  · cases h
  · split at h
    · cases h
    · rcases Replies.error_cases h with heq | ⟨d, heq⟩ <;> cases heq

end ExpiringMap

end Gatehouse
