import Gatehouse.Proofs.Cache.Engines

/-!
# Calls of the embedded store that fail

A read that meets octets which are no entry fails and leaves them where they are. A take removes the octets of its key
before it looks at them, so a take that fails for this reason has lost them. Every other call that fails leaves the
store as it was, but for entries that had expired (`failed_call_keeps_disk_iff`).
-/

namespace Gatehouse.Embedded

variable {disk disk' : Table Bytes Bytes} {s : Embedded} {now : Nat} {c : EngineCall} {key : String} {err : CacheError}

/-- The octets of an entry that has expired. -/
def Outdated (now : Nat) (raw : Bytes) : Prop := ∃ e, Stored.ofBytes? raw = some e ∧ e.isExpired now = true

/-- Every key has the octets that it had, or it is gone and they were those of an entry that had expired. -/
def Intact (now : Nat) (disk disk' : Table Bytes Bytes) : Prop :=
  ∀ k, disk'.get? k = disk.get? k ∨ disk'.get? k = none ∧ ∃ raw, disk.get? k = some raw ∧ Outdated now raw

/-- There are octets under a key, and they are no entry. -/
def Corrupt (disk : Table Bytes Bytes) (key : String) : Prop :=
  ∃ raw, disk.get? (Bytes.ofText key) = some raw ∧ Stored.ofBytes? raw = none

theorem Intact.refl (now : Nat) (disk : Table Bytes Bytes) : Intact now disk disk := fun _ => .inl rfl

theorem Intact.erase {k raw : Bytes} (hraw : disk.get? k = some raw) (h : Outdated now raw) :
    Intact now disk (disk.erase k) := by
  intro k'
  rw [Table.get?_erase]
  by_cases hk : k' = k
  · subst hk
    exact .inr ⟨if_pos rfl, raw, hraw, h⟩
  · exact .inl (if_neg hk)

/-- Octets that are no entry are not lost by anything that leaves a store intact. -/
theorem Intact.get?_of_corrupt (h : Intact now disk disk') {raw : Bytes}
    (hraw : disk.get? (Bytes.ofText key) = some raw) (hcorrupt : Stored.ofBytes? raw = none) :
    disk'.get? (Bytes.ofText key) = some raw := by
  rcases h (Bytes.ofText key) with hsame | ⟨-, raw', hraw', e, he, -⟩
  · exact hsame.trans hraw
  · rw [hraw] at hraw'
    rw [Option.some.inj hraw', he] at hcorrupt
    cases hcorrupt

/-- A point read removes nothing but an entry that has expired. -/
theorem read_intact (disk : Table Bytes Bytes) (now : Nat) (key : String) : Intact now disk (read disk now key).2 := by
  obtain heq | ⟨heq, raw, e, hraw, he, hexpired⟩ := read_disk disk now key
  · rw [heq]
    exact .refl now disk
  · rw [heq]
    exact .erase hraw ⟨e, he, hexpired⟩

/-- A take of an open store fails just if there are octets under its key that are no entry, and then it has removed
them. -/
theorem respond_take_error (h : (s.respond now (.take key)).1 = .error err) :
    Corrupt s.disk key ∧ err = .corruptEntry key ∧
      (s.respond now (.take key)).2 = { s with disk := s.disk.erase (Bytes.ofText key) } := by
  cases hraw : s.disk.get? (Bytes.ofText key) with
  | none =>
    simp only [respond, hraw] at h
    cases h
  | some raw =>
    simp only [respond, hraw, Stored.parse] at h ⊢
    cases he : Stored.ofBytes? raw with
    | some e =>
      rw [he] at h
      cases h
    | none =>
      rw [he] at h
      cases h
      exact ⟨⟨raw, hraw, he⟩, rfl, trivial⟩

/-- Every other call that an open store fails leaves it intact. -/
theorem respond_intact (hc : ∀ key, c ≠ .take key) (h : (s.respond now c).1 = .error err) :
    Intact now s.disk (s.respond now c).2.disk := by
  cases c with
  | has key => exact read_intact s.disk now key
  | fetch key => exact read_intact s.disk now key
  | remaining key => exact read_intact s.disk now key
  | keys stem => exact .refl now s.disk
  | entries stem => exact .refl now s.disk
  | take key => exact absurd rfl (hc key)
  | put key value lifetime => cases h
  | delete key => cases h
  | flush => cases h
  | close => cases h

/-- A call that fails leaves the store intact just if it is not a take of octets that are no entry, from an open store.
Such a take reports them as corrupt and has removed them, and nothing else. -/
theorem failed_call_keeps_disk_iff (h : (s.perform now c).1 = .error err) :
    (Intact now s.disk (s.perform now c).2.disk ↔ ¬∃ key, c = .take key ∧ s.isOpen = true ∧ Corrupt s.disk key) ∧
      ∀ key, c = .take key → s.isOpen = true → err = .corruptEntry key ∧
        ∀ k, (s.perform now c).2.disk.get? k = if k = Bytes.ofText key then none else s.disk.get? k := by
  cases hopen : s.isOpen with
  | false =>
    have hsame : (s.perform now c).2 = s := by
      unfold perform
      rw [if_neg (by rw [hopen]; decide)]
    rw [hsame]
    exact ⟨iff_of_true (.refl now s.disk) nofun, nofun⟩
  | true =>
    rw [perform_of_open now c hopen] at h ⊢
    by_cases htake : ∃ key, c = .take key
    · obtain ⟨key, rfl⟩ := htake
      obtain ⟨hcorrupt, herr, hafter⟩ := respond_take_error h
      have hdisk (k : Bytes) : (s.respond now (.take key)).2.disk.get? k =
          if k = Bytes.ofText key then none else s.disk.get? k := by
        rw [hafter, Table.get?_erase]
      refine ⟨iff_of_false (fun hintact => ?_) (not_not_intro ⟨key, rfl, rfl, hcorrupt⟩), fun key' heq _ => ?_⟩
      · obtain ⟨raw, hraw, hnone⟩ := hcorrupt
        have hkept := hintact.get?_of_corrupt hraw hnone
        rw [hdisk, if_pos rfl] at hkept
        cases hkept
      · cases heq
        exact ⟨herr, hdisk⟩
    · have hnever (key : String) : c ≠ .take key := fun heq => htake ⟨key, heq⟩
      exact ⟨iff_of_true (respond_intact hnever h) fun ⟨key, heq, _⟩ => hnever key heq,
        fun key heq => absurd heq (hnever key)⟩

/-- An open store with three octets under one key and, under another one, an entry that expired at one millisecond
after the beginning of 1970. -/
def sampleCorrupt : Embedded :=
  openStore (Table.ofList
    [(Bytes.ofText "bad", Bytes.ofText "abc"), (Bytes.ofText "old", Stored.toBytes ⟨1, []⟩)]) false

/-- A fetch of either key fails. The octets that are no entry stay and the entry that has expired is removed, so both
leave the store intact; the take does not. -/
theorem failed_calls_of_corrupt_store :
    (sampleCorrupt.perform 1700000000000 (.fetch "bad")).1 = .error (.corruptEntry "bad") ∧
      Intact 1700000000000 sampleCorrupt.disk (sampleCorrupt.perform 1700000000000 (.fetch "bad")).2.disk ∧
      (sampleCorrupt.perform 1700000000000 (.fetch "old")).1 = .error .keyNotFound ∧
      Intact 1700000000000 sampleCorrupt.disk (sampleCorrupt.perform 1700000000000 (.fetch "old")).2.disk ∧
      (sampleCorrupt.perform 1700000000000 (.take "bad")).1 = .error (.corruptEntry "bad") ∧
      ¬Intact 1700000000000 sampleCorrupt.disk (sampleCorrupt.perform 1700000000000 (.take "bad")).2.disk := by
  have hbad : (sampleCorrupt.perform 1700000000000 (.fetch "bad")).1 = .error (.corruptEntry "bad") := rfl
  have hold : (sampleCorrupt.perform 1700000000000 (.fetch "old")).1 = .error .keyNotFound := rfl
  have htake : (sampleCorrupt.perform 1700000000000 (.take "bad")).1 = .error (.corruptEntry "bad") := rfl
  have hcorrupt : Corrupt sampleCorrupt.disk "bad" := ⟨Bytes.ofText "abc", by decide +kernel, by decide +kernel⟩
  refine ⟨hbad, (failed_call_keeps_disk_iff hbad).1.mpr ?_, hold, (failed_call_keeps_disk_iff hold).1.mpr ?_, htake,
    fun hintact => (failed_call_keeps_disk_iff htake).1.mp hintact ⟨"bad", rfl, rfl, hcorrupt⟩⟩
  · rintro ⟨key, heq, -⟩
    cases heq
  · rintro ⟨key, heq, -⟩
    cases heq

/-- The take of three octets that are no entry fails and they are gone: what every read reported as corrupt is not
there any more. -/
theorem corrupt_octets_lost_by_take :
    let after := (sampleCorrupt.perform 1700000000000 (.take "bad")).2
    (sampleCorrupt.perform 1700000000000 (.take "bad")).1 = .error (.corruptEntry "bad") ∧
      sampleCorrupt.disk.get? (Bytes.ofText "bad") = some (Bytes.ofText "abc") ∧
      ¬Outdated 1700000000000 (Bytes.ofText "abc") ∧
      after.disk.get? (Bytes.ofText "bad") = none ∧
      (sampleCorrupt.perform 1700000000000 (.has "bad")).1 = .error (.corruptEntry "bad") ∧
      (after.perform 1700000000000 (.has "bad")).1 = .ok false := by
  intro after
  have hnone : Stored.ofBytes? (Bytes.ofText "abc") = none := by decide +kernel
  refine ⟨rfl, by decide +kernel, ?_, by decide +kernel, rfl, rfl⟩
  rintro ⟨e, he, -⟩
  rw [hnone] at he
  cases he

end Gatehouse.Embedded
