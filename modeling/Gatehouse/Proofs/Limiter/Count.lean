import Gatehouse.Proofs.Cache.Live
import Gatehouse.Proofs.Service.Calm

/-!
# What a limiter counts and forgets

A limiter counts the live keys under its text. Clearing it takes those keys away and leaves every other entry as it
was, so that it counts none; a limiter whose text other keys have in common with it loses those too.
-/

namespace Gatehouse

namespace Memory

variable {m : Memory} {now : Nat} {stem : String}

/-- The engine without the live keys under a text. -/
def cleared (m : Memory) (now : Nat) (stem : String) : Memory :=
  { m with entries := ((m.liveUnder now stem).map Prod.fst).foldl Table.erase m.entries }

/-- Every scan loses the keys under the text, and nothing else. -/
theorem liveUnder_cleared (m : Memory) (now : Nat) (stem stem' : String) :
    ((m.cleared now stem).liveUnder now stem').Perm ((m.liveUnder now stem').filter fun e => !startsWith stem e.1) := by
  have hnodup := Table.nodup_of_keys ((m.cleared now stem).nodup_keys_liveUnder now stem')
  have hnodup' := (Table.nodup_of_keys (m.nodup_keys_liveUnder now stem')).filter fun e => !startsWith stem e.1
  refine (List.perm_ext_iff_of_nodup hnodup hnodup').mpr ?_
  rintro ⟨key, e⟩
  rw [List.mem_filter, mem_liveUnder, mem_liveUnder, Bool.not_eq_true', and_assoc]
  refine and_congr_right fun _ => ?_
  have hget : (m.cleared now stem).entries.get? key =
      if key ∈ (m.liveUnder now stem).map Prod.fst then none else m.entries.get? key :=
    Table.get?_foldl_erase _ m.entries key
  by_cases hkey : key ∈ (m.liveUnder now stem).map Prod.fst
  · rw [if_pos hkey] at hget
    have hstem := (mem_keys_liveUnder.mp hkey).1
    unfold live?
    rw [hget, hstem]
    exact ⟨fun h => (nomatch h), fun h => (nomatch h.2)⟩
  · rw [if_neg hkey] at hget
    have hsame : (m.cleared now stem).live? now key = m.live? now key := by
      unfold live?
      rw [hget]
    rw [hsame]
    refine ⟨fun hlive => ⟨hlive, ?_⟩, And.left⟩
    cases hstem : startsWith stem key with
    | false => rfl
    | true => exact absurd (mem_keys_liveUnder.mpr ⟨hstem, e, hlive⟩) hkey

end Memory

namespace Limiter

variable {s : Service} {m : Memory}

/-- The count is the number of live keys under the text of the limiter, unless the scan is made to fail. -/
theorem run_count (l : Limiter) (hm : s.engine = .memory m) (hscan : s.engineFaults.fates .keys = []) :
    (s.run l.count).1 =
      .returned (if m.closed then 0 else (m.liveUnder s.clocks.monotonic l.attemptStem).length) := by
  have hnext : s.engineFaults.next (EngineCall.keys l.attemptStem).method = none := by
    unfold FaultPlan.next EngineCall.method
    rw [hscan]
    rfl
  have hcall : (s.callEngine (.keys l.attemptStem)).1 = (m.perform s.clocks.monotonic (.keys l.attemptStem)).1 := by
    unfold Service.callEngine
    rw [hnext, hm]
    rfl
  unfold count attempts Cache.keys
  rw [Service.run_andThen, Service.run_counted]
  cases hanswer : s.callEngine (.keys l.attemptStem) with
  | mk o s₁ =>
    rw [hanswer] at hcall
    change o = _ at hcall
    rw [hcall]
    unfold Memory.perform
    cases hclosed : m.closed with
    | true => rfl
    | false =>
      rw [if_neg Bool.false_ne_true, if_neg Bool.false_ne_true, Memory.respond, ← List.length_map Prod.fst]
      rfl

/-! ## Clearing -/

theorem run_attempts (l : Limiter) (h : s.Calm m) :
    s.run (CacheAction.lift l.attempts).run =
      (.returned (.ok ((m.liveUnder s.clocks.monotonic l.attemptStem).map Prod.fst)),
        { s with metrics := s.metrics.record (.operation .scan .ok) }) := by
  unfold attempts Cache.keys
  rw [Service.run_liftCache, Service.run_counted, h.callEngine_eq, Memory.respond, ← h.engine]
  rfl

theorem run_delete (key : String) (h : s.Calm m) :
    s.run (CacheAction.lift (Cache.delete key)).run =
      (.returned (.ok ()),
        { s with
          engine := .memory { m with entries := m.entries.erase key }
          metrics := s.metrics.record (.operation .delete .ok) }) := by
  unfold Cache.delete
  rw [Service.run_liftCache, Service.run_counted, h.callEngine_eq]
  rfl

theorem run_deletes (keys : List String) (h : s.Calm m) :
    ∃ s', s.run (keys.forM fun key => CacheAction.lift (Cache.delete key)).run = (.returned (.ok ()), s') ∧
      s'.clocks = s.clocks ∧ s'.Calm { m with entries := keys.foldl Table.erase m.entries } := by
  induction keys generalizing s m with
  | nil => exact ⟨s, rfl, rfl, h⟩
  | cons key keys ih =>
    have hcalm : ({ s with
        engine := .memory { m with entries := m.entries.erase key }
        metrics := s.metrics.record (.operation .delete .ok) } : Service).Calm
        { m with entries := m.entries.erase key } := ⟨rfl, h.isOpen, h.engineFaults, h.storeFaults⟩
    obtain ⟨s', hrun, hclocks, hcalm'⟩ := ih hcalm
    exact ⟨s', (Service.run_bind_of_ok (run_delete key h)).trans hrun, hclocks, hcalm'⟩

/-- If nothing fails, clearing a limiter takes the live keys under its text away, and nothing else. -/
theorem run_clear (l : Limiter) (h : s.Calm m) :
    ∃ s', s.run l.clear.run = (.returned (.ok ()), s') ∧ s'.clocks = s.clocks ∧
      s'.Calm (m.cleared s.clocks.monotonic l.attemptStem) := by
  have hcalm : ({ s with metrics := s.metrics.record (.operation .scan .ok) } : Service).Calm m :=
    ⟨h.engine, h.isOpen, h.engineFaults, h.storeFaults⟩
  unfold clear
  rw [Service.run_bind_of_ok (run_attempts l h)]
  exact run_deletes _ hcalm

end Limiter

end Gatehouse
