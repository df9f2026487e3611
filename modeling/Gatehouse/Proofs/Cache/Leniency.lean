import Gatehouse.Proofs.Cache.Call
import Gatehouse.Proofs.Json.Refusal
import Gatehouse.Proofs.Table

/-!
# Scans pass over values that ended too soon

A scan reads the values that the engine lists one after another. Those that ended too soon are left out, and the first
one that cannot be read for another reason fails the scan. So the order of the engine decides in which order the values
come and which failure is told, but neither whether there is one nor which value a key has.
-/

namespace Gatehouse.Cache

open Json

variable {α : Type} [FromJson α]

/-! ## One entry -/

/-- The value of a stored form, if it can be read. -/
def value? (α : Type) [FromJson α] (b : Bytes) : Option α := (decode b).toOption

/-- A stored form can be read, or ended too soon. -/
def Tolerable (α : Type) [FromJson α] (b : Bytes) : Prop :=
  (∃ a : α, decode b = .ok a) ∨
    ∃ cause, (decode b : Except DecodeError α) = .error cause ∧ (CacheError.decoding cause).isIncomplete = true

theorem value?_eq_some {b : Bytes} {a : α} : value? α b = some a ↔ decode b = .ok a := by
  unfold value?
  cases (decode b : Except DecodeError α) <;> simp [Except.toOption]

theorem read_of_error {b : Bytes} {cause : DecodeError} (hdecode : (decode b : Except DecodeError α) = .error cause) :
    (read b : Except CacheError α) = .error (.decoding cause) := by
  rw [read, hdecode]
  rfl

theorem readLenient_of_tolerable {b : Bytes} (h : Tolerable α b) : readLenient b = .ok (value? α b) := by
  rcases h with ⟨a, hdecode⟩ | ⟨cause, hdecode, hincomplete⟩
  · simp only [readLenient, read, value?, hdecode]
    rfl
  · simp only [readLenient, read_of_error hdecode, value?, hdecode, hincomplete, if_true]
    rfl

theorem exists_of_not_tolerable {b : Bytes} (h : ¬Tolerable α b) :
    ∃ cause, (decode b : Except DecodeError α) = .error cause ∧ (CacheError.decoding cause).isIncomplete = false := by
  cases hdecode : (decode b : Except DecodeError α) with
  | ok a => exact absurd (.inl ⟨a, hdecode⟩) h
  | error cause =>
    exact ⟨cause, rfl, Bool.eq_false_iff.mpr fun hincomplete => h (.inr ⟨cause, hdecode, hincomplete⟩)⟩

theorem readLenient_of_refused {b : Bytes} {cause : DecodeError}
    (hdecode : (decode b : Except DecodeError α) = .error cause)
    (hcause : (CacheError.decoding cause).isIncomplete = false) :
    (readLenient b : Except CacheError (Option α)) = .error (.decoding cause) := by
  simp only [readLenient, read_of_error hdecode, hcause]
  rfl

/-! ## The entries of a scan -/

/-- The values that can be read, with their keys. -/
def kept (α : Type) [FromJson α] (found : List (String × Bytes)) : List (String × α) :=
  found.filterMap fun e => (value? α e.2).map fun a => (e.1, a)

theorem kept_cons (e : String × Bytes) (rest : List (String × Bytes)) :
    kept α (e :: rest) = ((value? α e.2).map fun a => (e.1, a)).toList ++ kept α rest := by
  unfold kept
  rw [List.filterMap_cons]
  cases value? α e.2 <;> rfl

/-- The failure of the first entry that can neither be read nor ended too soon. -/
def FailsFirst (α : Type) [FromJson α] (found : List (String × Bytes)) (e : CacheError) : Prop :=
  ∃ before key b after cause, found = before ++ (key, b) :: after ∧ (∀ x ∈ before, Tolerable α x.2) ∧
    (decode b : Except DecodeError α) = .error cause ∧ (CacheError.decoding cause).isIncomplete = false ∧
      e = .decoding cause

theorem readEntries_cons_of_tolerable {key : String} {b : Bytes} (h : Tolerable α b) (rest : List (String × Bytes)) :
    (readEntries ((key, b) :: rest) : Except CacheError (List (String × α))) =
      (readEntries rest).map fun l => ((value? α b).map fun a => (key, a)).toList ++ l := by
  unfold readEntries
  rw [List.mapM_cons, readLenient_of_tolerable h]
  cases List.mapM (fun e : String × Bytes => do return (← readLenient e.2).map fun a : α => (e.1, a)) rest with
  | error e => rfl
  | ok l =>
    cases value? α b with
    | none => rfl
    | some a => rfl

theorem readEntries_cons_of_refused {key : String} {b : Bytes} {cause : DecodeError}
    (hdecode : (decode b : Except DecodeError α) = .error cause)
    (hcause : (CacheError.decoding cause).isIncomplete = false) (rest : List (String × Bytes)) :
    (readEntries ((key, b) :: rest) : Except CacheError (List (String × α))) = .error (.decoding cause) := by
  unfold readEntries
  rw [List.mapM_cons, readLenient_of_refused hdecode hcause]
  rfl

/-- A scan of entries that can all be read or ended too soon has the values of the former. -/
theorem readEntries_of_tolerable {found : List (String × Bytes)} (h : ∀ e ∈ found, Tolerable α e.2) :
    readEntries found = .ok (kept α found) := by
  induction found with
  | nil => rfl
  | cons e rest ih =>
    obtain ⟨he, hrest⟩ := List.forall_mem_cons.mp h
    rw [readEntries_cons_of_tolerable he, ih hrest, kept_cons]
    rfl

/-- A scan fails at the first entry that is neither. -/
theorem readEntries_of_failsFirst {found : List (String × Bytes)} {e : CacheError} (h : FailsFirst α found e) :
    (readEntries found : Except CacheError (List (String × α))) = .error e := by
  obtain ⟨before, key, b, after, cause, rfl, hbefore, hdecode, hcause, rfl⟩ := h
  induction before with
  | nil => exact readEntries_cons_of_refused hdecode hcause after
  | cons e before ih =>
    obtain ⟨he, hbefore⟩ := List.forall_mem_cons.mp hbefore
    rw [List.cons_append, readEntries_cons_of_tolerable he, ih hbefore]
    rfl

theorem exists_failsFirst {found : List (String × Bytes)} (h : ¬∀ e ∈ found, Tolerable α e.2) :
    ∃ e, FailsFirst α found e := by
  obtain ⟨before, ⟨key, b⟩, after, hfound, hbefore, hb⟩ := Scanner.exists_first h
  obtain ⟨cause, hdecode, hcause⟩ := exists_of_not_tolerable hb
  exact ⟨_, before, key, b, after, cause, hfound, hbefore, hdecode, hcause, rfl⟩

/-- What is made of the entries of a scan is made of those that can be read, just if the others ended too soon. -/
theorem map_readEntries_ok_iff {β : Type} {found : List (String × Bytes)} {f : List (String × α) → β} {x : β} :
    (readEntries found).map f = .ok x ↔ (∀ e ∈ found, Tolerable α e.2) ∧ f (kept α found) = x := by
  by_cases h : ∀ e ∈ found, Tolerable α e.2
  · rw [readEntries_of_tolerable h]
    exact ⟨fun heq => ⟨h, Except.ok.inj heq⟩, fun heq => congrArg _ heq.2⟩
  · obtain ⟨e, he⟩ := exists_failsFirst h
    rw [readEntries_of_failsFirst he]
    exact ⟨nofun, fun hall => absurd hall.1 h⟩

/-! ## What is kept -/

theorem mem_kept {found : List (String × Bytes)} {key : String} {a : α} :
    (key, a) ∈ kept α found ↔ ∃ b, (key, b) ∈ found ∧ decode b = .ok a := by
  unfold kept
  rw [List.mem_filterMap]
  constructor
  · rintro ⟨⟨k, b⟩, hmem, heq⟩
    obtain ⟨a', ha, hpair⟩ := Option.map_eq_some_iff.mp heq
    obtain ⟨rfl, rfl⟩ := Prod.mk.inj hpair
    exact ⟨b, hmem, value?_eq_some.mp ha⟩
  · rintro ⟨b, hmem, hdecode⟩
    exact ⟨(key, b), hmem, Option.map_eq_some_iff.mpr ⟨a, value?_eq_some.mpr hdecode, rfl⟩⟩

/-- The keys of what is kept are some of the keys of the entries, in their order. -/
theorem keys_kept (α : Type) [FromJson α] (found : List (String × Bytes)) :
    ((kept α found).map Prod.fst).Sublist (found.map Prod.fst) := by
  induction found with
  | nil => exact .slnil
  | cons e rest ih =>
    rw [kept_cons]
    cases value? α e.2 with
    | none => exact ih.cons e.1
    | some a => exact ih.cons_cons e.1

theorem map_snd_kept (found : List (String × Bytes)) :
    (kept α found).map Prod.snd = found.filterMap fun e => value? α e.2 := by
  unfold kept
  rw [List.map_filterMap]
  refine congrArg (List.filterMap · found) (funext fun e => ?_)
  cases value? α e.2 <;> rfl

/-- A table holds what is kept just if it maps its keys to their values. -/
theorem ofList_kept_eq_iff {found : List (String × Bytes)} (hkeys : (found.map Prod.fst).Nodup) {t : Table String α} :
    Table.ofList (kept α found) = t ↔
      ∀ key a, t.get? key = some a ↔ ∃ b, (key, b) ∈ found ∧ decode b = .ok a := by
  have hkept : ∀ key a, (Table.ofList (kept α found)).get? key = some a ↔ (key, a) ∈ kept α found := by
    intro key a
    rw [← Table.mem_entries_iff]
    exact Table.mem_entries_ofList_iff (hkeys.sublist (keys_kept α found)) (key, a)
  constructor
  · rintro rfl key a
    rw [hkept, mem_kept]
  · intro h
    refine Table.ext_get? fun key => Option.ext fun a => ?_
    rw [hkept, mem_kept, h]

/-! ## Scans -/

section Scans

variable {σ : Type} (B : Backend σ) (clocks : Clocks) (s : σ) {stem : String} {found : List (String × Bytes)}

theorem run_values (h : (B.perform clocks s (.entries stem)).1 = .returned (.ok found)) :
    (B.run clocks s (.values α stem)).1 =
      .returned ((readEntries found).map fun l : List (String × α) => l.map Prod.snd) := by
  rw [B.run_eq]
  simp only [CacheCall.plan, h]
  rfl

theorem run_items (h : (B.perform clocks s (.entries stem)).1 = .returned (.ok found)) :
    (B.run clocks s (.items α stem)).1 = .returned ((readEntries found).map (Table.ofList (α := α))) := by
  rw [B.run_eq]
  simp only [CacheCall.plan, h]
  rfl

theorem values_ok_iff (h : (B.perform clocks s (.entries stem)).1 = .returned (.ok found)) {l : List α} :
    (B.run clocks s (.values α stem)).1 = .returned (.ok l) ↔
      (∀ e ∈ found, Tolerable α e.2) ∧ l = found.filterMap fun e => value? α e.2 := by
  rw [run_values B clocks s h, Outcome.returned.injEq, map_readEntries_ok_iff, map_snd_kept, eq_comm (a := l)]

theorem items_ok_iff (h : (B.perform clocks s (.entries stem)).1 = .returned (.ok found))
    (hkeys : (found.map Prod.fst).Nodup) {t : Table String α} :
    (B.run clocks s (.items α stem)).1 = .returned (.ok t) ↔
      (∀ e ∈ found, Tolerable α e.2) ∧ ∀ key a, t.get? key = some a ↔ ∃ b, (key, b) ∈ found ∧ decode b = .ok a := by
  rw [run_items B clocks s h, Outcome.returned.injEq, map_readEntries_ok_iff, ofList_kept_eq_iff hkeys]

end Scans

/-- Whatever an engine lists, with every key once: the values under a text are read just if each of the stored forms can
be read or ended too soon, and then they are those that can be read, in the order of the engine; the items are read in
the same cases, and hold these values under their keys. Otherwise both fail with the failure of the first entry that is
neither. An engine that lists the same entries in another order fails in the same cases, and has the same items. -/
theorem scans_pass_over_incomplete {σ : Type} (B : Backend σ) (clocks : Clocks) (s : σ) (stem : String)
    (found : List (String × Bytes)) (hfound : (B.perform clocks s (.entries stem)).1 = .returned (.ok found))
    (hkeys : (found.map Prod.fst).Nodup) :
    (∀ l, (B.run clocks s (.values α stem)).1 = .returned (.ok l) ↔
      (∀ e ∈ found, Tolerable α e.2) ∧ l = found.filterMap fun e => value? α e.2) ∧
    (∀ t : Table String α, (B.run clocks s (.items α stem)).1 = .returned (.ok t) ↔
      (∀ e ∈ found, Tolerable α e.2) ∧ ∀ key a, t.get? key = some a ↔ ∃ b, (key, b) ∈ found ∧ decode b = .ok a) ∧
    ((¬∀ e ∈ found, Tolerable α e.2) →
      ∃ e, FailsFirst α found e ∧ (B.run clocks s (.values α stem)).1 = .returned (.error e) ∧
        (B.run clocks s (.items α stem)).1 = .returned (.error e)) ∧
    ∀ (τ : Type) (B' : Backend τ) (clocks' : Clocks) (s' : τ) (found' : List (String × Bytes)),
      (B'.perform clocks' s' (.entries stem)).1 = .returned (.ok found') → found'.Perm found →
        ((∃ l, (B'.run clocks' s' (.values α stem)).1 = .returned (.ok l)) ↔
          ∃ l, (B.run clocks s (.values α stem)).1 = .returned (.ok l)) ∧
        ∀ t : Table String α, (B'.run clocks' s' (.items α stem)).1 = .returned (.ok t) ↔
          (B.run clocks s (.items α stem)).1 = .returned (.ok t) := by
  refine ⟨fun l => values_ok_iff B clocks s hfound, fun t => items_ok_iff B clocks s hfound hkeys, fun h => ?_, ?_⟩
  · obtain ⟨e, he⟩ := exists_failsFirst h
    refine ⟨e, he, ?_, ?_⟩
    · rw [run_values B clocks s hfound, readEntries_of_failsFirst he]
      rfl
    · rw [run_items B clocks s hfound, readEntries_of_failsFirst he]
      rfl
  · intro τ B' clocks' s' found' hfound' hperm
    have hkeys' : (found'.map Prod.fst).Nodup := (hperm.map Prod.fst).nodup_iff.mpr hkeys
    have htolerable : (∀ e ∈ found', Tolerable α e.2) ↔ ∀ e ∈ found, Tolerable α e.2 :=
      forall_congr' fun e => imp_congr_left hperm.mem_iff
    refine ⟨?_, fun t => ?_⟩
    · simp only [values_ok_iff B' clocks' s' hfound', values_ok_iff B clocks s hfound, htolerable, exists_and_left,
        exists_eq, and_true]
    · rw [items_ok_iff B' clocks' s' hfound' hkeys', items_ok_iff B clocks s hfound hkeys, htolerable]
      simp only [hperm.mem_iff]

/-- An engine that lists entries in the order in which it has been given them. -/
def listing : Backend (List (String × Bytes)) where
  perform
    | _, l, .entries stem => (.returned (.ok (l.filter fun e => startsWith stem e.1)), l)
    | _, l, _ => (.abandoned, l)
  maintain _ _ l := l

/-- Lists of integers under three keys, one of them cut short and one empty. -/
def sampleEntries : List (String × Bytes) :=
  [("p:partial", Bytes.ofText "[3,4"), ("p:ok", Bytes.ofText "[1,2]"), ("p:empty", []), ("p:also", Bytes.ofText " [] ")]

/-- The two that are whole are read. -/
theorem scans_pass_over_partial_and_empty :
    (listing.perform ⟨0, 0⟩ sampleEntries (.entries "p:")).1 = .returned (.ok sampleEntries) ∧
      (sampleEntries.map Prod.fst).Nodup ∧
      (listing.run ⟨0, 0⟩ sampleEntries (.values (List Int64) "p:")).1 = .returned (.ok [[1, 2], []]) ∧
      ∃ t : Table String (List Int64),
        (listing.run ⟨0, 0⟩ sampleEntries (.items (List Int64) "p:")).1 = .returned (.ok t) ∧
          t.keys = ["p:also", "p:ok"] := by
  have hfound : (listing.perform ⟨0, 0⟩ sampleEntries (.entries "p:")).1 = .returned (.ok sampleEntries) := by
    decide +kernel
  have hkeys : (sampleEntries.map Prod.fst).Nodup := by decide
  obtain ⟨hvalues, hitems, -⟩ :=
    scans_pass_over_incomplete (α := List Int64) listing ⟨0, 0⟩ sampleEntries "p:" sampleEntries hfound hkeys
  have htolerable : ∀ e ∈ sampleEntries, Tolerable (List Int64) e.2 := by
    refine List.forall_mem_cons.mpr ⟨.inr ⟨.truncated, rfl, rfl⟩, List.forall_mem_cons.mpr ⟨.inl ⟨[1, 2], rfl⟩, ?_⟩⟩
    exact List.forall_mem_cons.mpr ⟨.inr ⟨.truncated, rfl, rfl⟩, List.forall_mem_singleton.mpr (.inl ⟨[], rfl⟩)⟩
  have htable := (ofList_kept_eq_iff (α := List Int64) hkeys).mp rfl
  exact ⟨hfound, hkeys, (hvalues _).mpr ⟨htolerable, rfl⟩, _, (hitems _).mpr ⟨htolerable, htable⟩, rfl⟩

end Gatehouse.Cache
