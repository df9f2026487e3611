import Mathlib.Logic.Function.Basic
import Gatehouse.Proofs.Cache.Corruption

/-!
# Lazy removal

A point read that has met an expired entry removes it in a step of its own. By then other callers may have written the
key again, with other octets or with the same ones. The removal spares all octets but those that were read, and these
have their deadline among them, so they stay expired as long as the wall clock does not fall back. No live entry is
ever removed by a read (`lazy_removal_spares_live`).
-/

namespace Gatehouse

/-! ## Requests to a disk -/

/-- A request to a disk or to the wall clock. Each is answered at once. -/
inductive DiskRequest where
  | fetch (key : Bytes)
  /-- The milliseconds that the wall clock shows. -/
  | clock
  /-- Removes a key if its octets are still the given ones. -/
  | removeIf (key raw : Bytes)
  | insert (key raw : Bytes)
  /-- Removes a key and tells its octets. -/
  | remove (key : Bytes)

namespace DiskRequest

/-- What a request is answered with. -/
abbrev Answer : DiskRequest → Type
  | fetch _ => Option Bytes
  | clock => Nat
  | removeIf _ _ => Unit
  | insert _ _ => Unit
  | remove _ => Option Bytes

/-- The answer to a request at a time, and the disk afterwards. -/
def answer (now : Nat) (disk : Table Bytes Bytes) : (r : DiskRequest) → r.Answer × Table Bytes Bytes
  | fetch key => (disk.get? key, disk)
  | clock => (now, disk)
  | removeIf key raw => ((), Embedded.compareAndRemove disk key raw)
  | insert key raw => ((), disk.insert key raw)
  | remove key => (disk.get? key, disk.erase key)

end DiskRequest

/-- A sequence of requests to a disk that ends with a result. -/
inductive DiskAction (α : Type) where
  | done (a : α)
  | ask (r : DiskRequest) (next : r.Answer → DiskAction α)

namespace DiskAction

variable {α : Type}

/-- Makes the next request. -/
def step (now : Nat) (disk : Table Bytes Bytes) : DiskAction α → DiskAction α × Table Bytes Bytes
  | done a => (done a, disk)
  | ask r next => (next (r.answer now disk).1, (r.answer now disk).2)

/-- Makes all requests, with nothing between them. -/
def run (now : Nat) : DiskAction α → Table Bytes Bytes → α × Table Bytes Bytes
  | done a, disk => (a, disk)
  | ask r next, disk => (next (r.answer now disk).1).run now (r.answer now disk).2

/-- The key that is to be removed next if its octets are still the given ones. -/
def removal? : DiskAction α → Option (Bytes × Bytes)
  | ask (.removeIf key raw) _ => some (key, raw)
  | _ => none

theorem exists_of_removal? {x : DiskAction α} {key raw : Bytes} (h : x.removal? = some (key, raw)) :
    ∃ next, x = .ask (.removeIf key raw) next := by
  unfold removal? at h
  split at h
  · cases h
    exact ⟨_, rfl⟩
  · cases h

end DiskAction

namespace Embedded

/-! ## Calls in steps -/

/-- What a caller of an open store does with its disk. -/
inductive Errand where
  /-- A point read, with which the calls `has`, `fetch` and `remaining` begin. -/
  | read (key : String)
  | put (key : String) (value : Bytes) (lifetime : Option Span)
  | delete (key : String)
  | take (key : String)
  /-- A flush removes one key after another, as it meets them. -/
  | flush (met : List Bytes)
deriving DecidableEq

namespace Errand

/-- What an errand ends with. -/
abbrev Result : Errand → Type
  | read _ => Except CacheError (Option Stored)
  | put _ _ _ => Except CacheError Unit
  | delete _ => Except CacheError Unit
  | take _ => Except CacheError Bool
  | flush _ => Except CacheError Unit

/-- What a point read does once it has found octets, or none. It looks at the clock only after it has read an entry. -/
def examine (key : String) : Option Bytes → DiskAction (Except CacheError (Option Stored))
  | none => .done (.ok none)
  | some raw =>
    match Stored.parse key raw with
    | .error e => .done (.error e)
    | .ok e =>
      .ask .clock fun now =>
        if e.isExpired now then .ask (.removeIf (Bytes.ofText key) raw) fun _ => .done (.ok none)
        else .done (.ok (some e))

/-- What a take does once it has removed octets, or found none. -/
def judge (key : String) : Option Bytes → DiskAction (Except CacheError Bool)
  | none => .done (.ok false)
  | some raw =>
    match Stored.parse key raw with
    | .error e => .done (.error e)
    | .ok e => .ask .clock fun now => .done (.ok !e.isExpired now)

/-- The removals of a flush. -/
def wipe : List Bytes → DiskAction (Except CacheError Unit)
  | [] => .done (.ok ())
  | k :: met => .ask (.remove k) fun _ => wipe met

/-- The steps of an errand. An entry that never expires is written without a look at the clock. -/
def steps : (e : Errand) → DiskAction e.Result
  | read key => .ask (.fetch (Bytes.ofText key)) (examine key)
  | put key value none => .ask (.insert (Bytes.ofText key) (Stored.toBytes ⟨0, value⟩)) fun _ => .done (.ok ())
  | put key value (some d) =>
    .ask .clock fun now =>
      .ask (.insert (Bytes.ofText key) (Stored.pack now value (some d))) fun _ => .done (.ok ())
  | delete key => .ask (.remove (Bytes.ofText key)) fun _ => .done (.ok ())
  | take key => .ask (.remove (Bytes.ofText key)) (judge key)
  | flush met => wipe met

/-! ### Steps with nothing between them -/

variable (now : Nat) (s : Embedded)

/-- The steps of a point read are the point read of the engine. -/
theorem run_read (key : String) : (read key).steps.run now s.disk = Embedded.read s.disk now key := by
  change (examine key (s.disk.get? (Bytes.ofText key))).run now s.disk = _
  unfold Embedded.read
  cases s.disk.get? (Bytes.ofText key) with
  | none => rfl
  | some raw =>
    simp only [examine, Stored.parse, classify]
    cases Stored.ofBytes? raw with
    | none => rfl
    | some e =>
      cases hexpired : e.isExpired now <;> simp only [DiskAction.run, DiskRequest.answer, hexpired] <;> rfl

theorem run_put (key : String) (value : Bytes) (lifetime : Option Span) :
    (put key value lifetime).steps.run now s.disk =
      ((s.respond now (.put key value lifetime)).1, (s.respond now (.put key value lifetime)).2.disk) := by
  cases lifetime <;> rfl

theorem run_delete (key : String) :
    (delete key).steps.run now s.disk = ((s.respond now (.delete key)).1, (s.respond now (.delete key)).2.disk) := rfl

theorem run_take (key : String) :
    (take key).steps.run now s.disk = ((s.respond now (.take key)).1, (s.respond now (.take key)).2.disk) := by
  change (judge key (s.disk.get? (Bytes.ofText key))).run now (s.disk.erase (Bytes.ofText key)) = _
  cases hraw : s.disk.get? (Bytes.ofText key) with
  | none =>
    have hgone : s.disk.erase (Bytes.ofText key) = s.disk := by
      refine Table.ext_get? fun k => ?_
      rw [Table.get?_erase]
      split <;> simp [*]
    simp only [respond, hraw, hgone]
    rfl
  | some raw =>
    simp only [respond, hraw, judge, Stored.parse]
    cases Stored.ofBytes? raw <;> rfl

/-- A flush that meets every key leaves nothing. -/
theorem run_flush {met : List Bytes} (h : ∀ k ∈ s.disk.keys, k ∈ met) :
    (flush met).steps.run now s.disk = ((s.respond now .flush).1, (s.respond now .flush).2.disk) := by
  have hwipe (met : List Bytes) (disk : Table Bytes Bytes) :
      (wipe met).run now disk = (.ok (), met.foldl Table.erase disk) := by
    induction met generalizing disk with
    | nil => rfl
    | cons k met ih => exact ih (disk.erase k)
  refine (hwipe met s.disk).trans (congrArg (Prod.mk _) (Table.ext_get? fun k => ?_))
  rw [Table.get?_foldl_erase]
  split
  · rfl
  · rename_i hk
    refine Option.eq_none_iff_forall_ne_some.mpr fun raw hraw => hk (h k ?_)
    exact List.mem_map.mpr ⟨(k, raw), (Table.mem_entries_iff _ _ _).mpr hraw, rfl⟩

end Errand

/-! ## Callers at work together -/

/-- One of the callers of a store. -/
structure DiskCaller where
  number : Nat
  errand : Errand
deriving DecidableEq

/-- A turn of a schedule. -/
inductive DiskTurn where
  /-- A caller makes its next request. -/
  | step (caller : DiskCaller)
  /-- The wall clock moves by a number of nanoseconds. -/
  | shiftWall (nanos : Int)

/-- A turn in which the wall clock does not fall back. -/
def DiskTurn.IsForward : DiskTurn → Prop
  | step _ => True
  | shiftWall nanos => 0 ≤ nanos

/-- Callers at work on one disk. -/
structure DiskInterleaving where
  disk : Table Bytes Bytes
  clocks : Clocks
  /-- What every caller still has to do. -/
  rest : (i : DiskCaller) → DiskAction i.errand.Result

namespace DiskInterleaving

/-- Callers that have not made a request yet. -/
def start (disk : Table Bytes Bytes) (clocks : Clocks) : DiskInterleaving := ⟨disk, clocks, fun i => i.errand.steps⟩

/-- The interleaving after a turn. -/
def apply (y : DiskInterleaving) : DiskTurn → DiskInterleaving
  | .step i =>
    { y with
      disk := ((y.rest i).step y.clocks.unixMillis y.disk).2
      rest := Function.update y.rest i ((y.rest i).step y.clocks.unixMillis y.disk).1 }
  | .shiftWall nanos => { y with clocks := { y.clocks with wall := y.clocks.wall + nanos } }

/-- The interleaving after a schedule. -/
def after (y : DiskInterleaving) (turns : List DiskTurn) : DiskInterleaving := turns.foldl apply y

end DiskInterleaving

end Embedded

/-! ## Careful callers -/

open Embedded

theorem Embedded.Outdated.later {now later : Nat} {raw : Bytes} (h : Outdated now raw) (hle : now ≤ later) :
    Outdated later raw := by
  obtain ⟨e, he, hexpired⟩ := h
  refine ⟨e, he, ?_⟩
  simp only [Stored.isExpired, Bool.and_eq_true, decide_eq_true_eq] at hexpired ⊢
  exact ⟨hexpired.1, Nat.le_trans hexpired.2 hle⟩

/-- Octets whose entry has not expired. -/
def Embedded.Current (now : Nat) (raw : Bytes) : Prop := ∃ e, Stored.ofBytes? raw = some e ∧ e.isExpired now = false

theorem Embedded.Outdated.not_current {now : Nat} {raw : Bytes} (h : Outdated now raw) : ¬Current now raw := by
  rintro ⟨e, he, hlive⟩
  obtain ⟨e', he', hexpired⟩ := h
  rw [he] at he'
  rw [Option.some.inj he', hexpired] at hlive
  cases hlive

namespace DiskAction

variable {α : Type} {now now' : Nat} {x : DiskAction α}

/-- From some time on, an action asks to remove only octets that have expired by then, whatever it is answered by a
clock that does not fall back. -/
def Careful : DiskAction α → Nat → Prop
  | done _, _ => True
  | ask (.fetch _) next, now => ∀ found, (next found).Careful now
  | ask .clock next, now => ∀ later, now ≤ later → (next later).Careful later
  | ask (.removeIf _ raw) next, now => Outdated now raw ∧ (next ()).Careful now
  | ask (.insert _ _) next, now => (next ()).Careful now
  | ask (.remove _) next, now => ∀ found, (next found).Careful now

theorem Careful.later (h : x.Careful now) (hle : now ≤ now') : x.Careful now' := by
  induction x generalizing now with
  | done a => trivial
  | ask r next ih =>
    cases r with
    | fetch key => exact fun found => ih found (h found) hle
    | clock => exact fun t ht => h t (Nat.le_trans hle ht)
    | removeIf key raw => exact ⟨h.1.later hle, ih () h.2 hle⟩
    | insert key raw => exact ih () h hle
    | remove key => exact fun found => ih found (h found) hle

theorem Careful.step (h : x.Careful now) (disk : Table Bytes Bytes) : (x.step now disk).1.Careful now := by
  cases x with
  | done a => trivial
  | ask r next =>
    cases r with
    | fetch key => exact h _
    | clock => exact h now (Nat.le_refl now)
    | removeIf key raw => exact h.2
    | insert key raw => exact h
    | remove key => exact h _

end DiskAction

namespace Embedded

/-- A lazy removal takes one key, and only if its octets are still the given ones. -/
theorem get?_compareAndRemove (disk : Table Bytes Bytes) (key raw k : Bytes) :
    (compareAndRemove disk key raw).get? k =
      if k = key ∧ disk.get? key = some raw then none else disk.get? k := by
  unfold compareAndRemove
  by_cases hraw : disk.get? key = some raw
  · rw [if_pos hraw, Table.get?_erase]
    simp only [hraw, and_true]
  · rw [if_neg hraw]
    simp only [hraw, and_false, if_false]

theorem Errand.examine_careful (key : String) (found : Option Bytes) (now : Nat) : (examine key found).Careful now := by
  cases found with
  | none => trivial
  | some raw =>
    simp only [examine, Stored.parse]
    cases he : Stored.ofBytes? raw with
    | none => trivial
    | some e =>
      intro later _
      -- The octets that are to be removed are those whose deadline was compared with the clock.
      by_cases hexpired : e.isExpired later
      · simp only [hexpired, if_true]
        exact ⟨⟨e, he, hexpired⟩, trivial⟩
      · simp only [hexpired]
        trivial

/-- Every errand is careful. -/
theorem Errand.careful (e : Errand) (now : Nat) : e.steps.Careful now := by
  cases e with
  | read key => exact fun found => examine_careful key found now
  | put key value lifetime =>
    cases lifetime with
    | none => trivial
    | some d => exact fun _ _ => trivial
  | delete key => exact fun _ => trivial
  | take key =>
    intro found
    cases found with
    | none => trivial
    | some raw =>
      simp only [judge, Stored.parse]
      cases Stored.ofBytes? raw with
      | none => trivial
      | some e => exact fun _ _ => trivial
  | flush met =>
    change (wipe met).Careful now
    induction met with
    | nil => trivial
    | cons k met ih => exact fun _ => ih

namespace DiskInterleaving

variable {y : DiskInterleaving} {turns : List DiskTurn}

/-- From now on, every caller is careful. -/
def Careful (y : DiskInterleaving) : Prop := ∀ i, (y.rest i).Careful y.clocks.unixMillis

theorem careful_start (disk : Table Bytes Bytes) (clocks : Clocks) : (start disk clocks).Careful :=
  fun i => i.errand.careful _

/-- Every turn in which the wall clock does not fall back leaves the callers careful. -/
theorem Careful.apply (h : y.Careful) {t : DiskTurn} (ht : t.IsForward) : (y.apply t).Careful := by
  intro i
  cases t with
  | step j =>
    by_cases hij : i = j
    · subst hij
      change (Function.update y.rest i _ i).Careful y.clocks.unixMillis
      rw [Function.update_self]
      exact (h i).step y.disk
    · change (Function.update y.rest j _ i).Careful y.clocks.unixMillis
      rw [Function.update_of_ne hij]
      exact h i
  | shiftWall nanos =>
    refine (h i).later (Int.toNat_le_toNat (Int.ediv_le_ediv (by decide) ?_))
    exact Int.le_add_of_nonneg_right ht

/-- And so does every schedule of such turns. -/
theorem Careful.after (h : y.Careful) (hturns : ∀ t ∈ turns, t.IsForward) : (y.after turns).Careful := by
  induction turns generalizing y with
  | nil => exact h
  | cons t rest ih =>
    exact ih (h.apply (hturns t List.mem_cons_self)) fun t' ht' => hturns t' (List.mem_cons_of_mem _ ht')

theorem disk_apply_of_removal {i : DiskCaller} {key raw : Bytes} (h : (y.rest i).removal? = some (key, raw)) :
    (y.apply (.step i)).disk = compareAndRemove y.disk key raw := by
  obtain ⟨next, hrest⟩ := DiskAction.exists_of_removal? h
  simp only [apply, hrest]
  rfl

end DiskInterleaving

open DiskInterleaving

/-- No live entry is lost by a lazy removal. Any number of point reads, puts, deletes, takes and flushes work together
on one disk, whatever is on it at first, their requests interleaved in any order, and the wall clock never falls back.
When a read comes to remove the octets that it read, then these octets are expired at that moment, whoever wrote them
since; the key goes if they are still there, or there again, and nothing else goes; so every entry that is live at that
moment stays. -/
theorem lazy_removal_spares_live (disk : Table Bytes Bytes) (clocks : Clocks) {turns : List DiskTurn}
    (hturns : ∀ t ∈ turns, t.IsForward) (i : DiskCaller) {key raw : Bytes}
    (hrest : (((start disk clocks).after turns).rest i).removal? = some (key, raw)) :
    let y := (start disk clocks).after turns
    let y' := y.apply (.step i)
    Outdated y.clocks.unixMillis raw ∧
      (∀ k, y'.disk.get? k = if k = key ∧ y.disk.get? key = some raw then none else y.disk.get? k) ∧
      ∀ k current, y.disk.get? k = some current → Current y.clocks.unixMillis current →
        y'.disk.get? k = some current := by
  intro y y'
  have houtdated : Outdated y.clocks.unixMillis raw := by
    have hcareful := (careful_start disk clocks).after hturns i
    obtain ⟨next, heq⟩ := DiskAction.exists_of_removal? hrest
    rw [heq] at hcareful
    exact hcareful.1
  have hdisk (k : Bytes) :
      y'.disk.get? k = if k = key ∧ y.disk.get? key = some raw then none else y.disk.get? k := by
    rw [show y'.disk = compareAndRemove y.disk key raw from disk_apply_of_removal hrest, get?_compareAndRemove]
  refine ⟨houtdated, hdisk, fun k current hk hcurrent => ?_⟩
  rw [hdisk, if_neg, hk]
  rintro ⟨rfl, hraw⟩
  rw [hk, Option.some_inj] at hraw
  exact houtdated.not_current (hraw ▸ hcurrent)

/-- Two callers write "k" for half a second. The second has computed its deadline, but not yet written, when the first
entry expires and is read; the key is deleted, and then the second caller writes the very octets that were read. -/
def rewriting : List DiskTurn :=
  let put (number : Nat) : DiskTurn := .step ⟨number, .put "k" [7] (some (Span.ofMillis 500))⟩
  let read : DiskTurn := .step ⟨2, .read "k"⟩
  [put 0, put 0, put 1, .shiftWall 2000000000, read, read, .step ⟨3, .delete "k"⟩, put 1]

/-- The removal takes the octets, which are there again and still expired. If a caller writes the key for longer before
the removal comes, the removal spares the entry. -/
theorem rewritten_and_renewed :
    let y := (start .empty ⟨0, 0⟩).after rewriting
    let renew : DiskTurn := .step ⟨4, .put "k" [7] (some (Span.ofMillis 500))⟩
    let y' := (start .empty ⟨0, 0⟩).after (rewriting ++ [renew, renew])
    let reader : DiskCaller := ⟨2, .read "k"⟩
    let key := Bytes.ofText "k"
    (y.apply (.step reader)).disk.get? key = none ∧ (y'.apply (.step reader)).disk.get? key = y'.disk.get? key := by
  intro y renew y' reader key
  have hturns : ∀ t ∈ rewriting, t.IsForward := by simp [rewriting, DiskTurn.IsForward]
  have hturns' : ∀ t ∈ rewriting ++ [renew, renew], t.IsForward := by simp [rewriting, renew, DiskTurn.IsForward]
  have hrest : (y.rest reader).removal? = some (key, Stored.pack 0 [7] (some (Span.ofMillis 500))) := by
    decide +kernel
  have hrest' : (y'.rest reader).removal? = some (key, Stored.pack 0 [7] (some (Span.ofMillis 500))) := by
    decide +kernel
  obtain ⟨-, hgone, -⟩ := lazy_removal_spares_live .empty ⟨0, 0⟩ hturns reader hrest
  obtain ⟨-, -, hspared⟩ := lazy_removal_spares_live .empty ⟨0, 0⟩ hturns' reader hrest'
  have hraw : y.disk.get? key = some (Stored.pack 0 [7] (some (Span.ofMillis 500))) := by decide +kernel
  have hraw' : y'.disk.get? key = some (Stored.pack 2000 [7] (some (Span.ofMillis 500))) := by decide +kernel
  have hcurrent : Current y'.clocks.unixMillis (Stored.pack 2000 [7] (some (Span.ofMillis 500))) :=
    ⟨⟨2500, [7]⟩, by decide +kernel, by decide +kernel⟩
  exact ⟨(hgone key).trans (if_pos ⟨rfl, hraw⟩), (hspared key _ hraw' hcurrent).trans hraw'.symm⟩

end Embedded

end Gatehouse
