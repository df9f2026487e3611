import Gatehouse.Proofs.Limiter.History
import Gatehouse.Proofs.Service.Course
import Gatehouse.Proofs.Service.Requests

/-!
# Clearing a limiter while attempts are recorded

Clearing a limiter is a scan and one deletion for each key that the scan listed. Attempts may be recorded in between. An
attempt that is written after the scan still counts, unless its key was listed, for an earlier attempt in the same
second, and is deleted after the write (`clear_spares_unlisted`). The attempts of one second share a key, so an attempt
can be lost in that way (`clear_loses_attempt_in_listed_second`).
-/

namespace Gatehouse

/-- An exchange wrote a key. -/
def Exchange.Writes (key : String) (e : Exchange) : Prop := ∃ lifetime, e.written? = some (key, lifetime)

/-- Every removal of a key is followed by a write of it. -/
def Occurrence.Restores {ι : Type} (key : String) (l : List (Occurrence ι)) : Prop :=
  ∀ older o newer, l = older ++ o :: newer → o.exchange.Removes key → ∃ w ∈ newer, w.exchange.Writes key

/-! ## Callers -/

/-- The callers of one limiter: one of them clears it, and the others record attempts. -/
inductive LimitCaller where
  | clearer
  | recorder (number : Nat)
deriving DecidableEq

namespace LimitCaller

/-- What a caller does. -/
def action (l : Limiter) : LimitCaller → ServiceAction Unit
  | clearer => l.clear
  | recorder _ => l.record

/-- The requests with which attempts are cleared, if only some keys may be deleted. -/
def clears (D : String → Prop) : Request → Prop
  | .engine (.keys _) | .record _ => True
  | .engine (.delete key) => D key
  | _ => False

/-- The requests with which an attempt is recorded. -/
def records (l : Limiter) : Request → Prop
  | .clock | .record _ => True
  | .engine (.put key _ lifetime) => startsWith l.attemptStem key = true ∧ lifetime = Cache.lifetime (some l.window)
  | _ => False

/-- The requests that a caller may make, if the one that clears may delete only some keys. -/
def asks (l : Limiter) (D : String → Prop) : LimitCaller → Request → Prop
  | clearer => clears D
  | recorder _ => records l

variable {l : Limiter} {D : String → Prop} {i : LimitCaller} {e : Exchange} {key : String}

theorem not_asks_close (i : LimitCaller) : ¬asks l D i (.engine .close) := by
  cases i <;> exact id

theorem deletes_observe {keys : List String} (h : ∀ key ∈ keys, D key) :
    Observes (.asking (clears D)) (keys.forM fun key => CacheAction.lift (Cache.delete key) : ServiceAction PUnit)
      fun _ => True :=
  Observes.forM fun key hkey => Observes.liftCache
    ((Cache.counted_observes (c := .delete key) (fun _ => trivial) (h key hkey)).mono fun _ _ => trivial)

theorem follows_asks (l : Limiter) (i : LimitCaller) :
    (i.action l).run.Follows (.asking (asks l (fun _ => True) i)) fun _ => True := by
  cases i with
  | clearer =>
    have hclear : Observes (.asking (clears fun _ => True)) l.clear fun _ => True :=
      Limiter.clear_observes_of_listed (fun _ => trivial) trivial fun _ _ _ _ => trivial
    exact Action.Follows.mono hclear fun _ _ => trivial
  | recorder number =>
    have hopens : (Protocol.asking (records l)).Opens fun _ => False :=
      ⟨fun _ _ _ => False.elim, fun _ _ htold => htold, trivial, fun _ => trivial⟩
    have hrecord : Observes (.asking (records l)) l.record fun _ => True :=
      Limiter.record_observes hopens fun _ _ => ⟨startsWith_append _ _, rfl⟩
    exact Action.Follows.mono hrecord fun _ _ => trivial

/-- What is written is an attempt of the limiter, for as long as its window. -/
theorem attempt_of_written {lifetime : Option Span} (hasks : asks l D i e.request)
    (h : e.written? = some (key, lifetime)) :
    startsWith l.attemptStem key = true ∧ lifetime = Cache.lifetime (some l.window) := by
  obtain ⟨value, hrequest⟩ := Exchange.request_of_written h
  rw [hrequest] at hasks
  cases i with
  | clearer => exact hasks.elim
  | recorder number => exact hasks

/-- What is removed is deleted by the caller that clears. -/
theorem deleted_of_removes (hasks : asks l D i e.request) (h : e.Removes key) :
    i = clearer ∧ e.request = .engine (.delete key) ∧ D key := by
  obtain ⟨r, x⟩ := e
  cases r with
  | engine c =>
    cases i with
    | clearer =>
      cases c with
      | delete key' =>
        match x with
        | .error _ => exact h.elim
        | .ok () =>
          obtain rfl : key' = key := h
          exact ⟨rfl, rfl, hasks⟩
      | keys stem => exact h.elim
      | _ => exact hasks.elim
    | recorder number =>
      cases c with
      | put key' value lifetime =>
        obtain ⟨-, rfl⟩ := hasks
        exact absurd h (Exchange.not_removes_of_put x)
      | _ => exact hasks.elim
  | _ => exact h.elim

end LimitCaller

namespace Limiter

open LimitCaller

variable {s : Service} {m : Memory} {l : Limiter} {D : String → Prop}
  {y : Interleaving fun _ : LimitCaller => Except ServiceError Unit}

/-- The callers of a limiter, none of which has made a request yet. -/
def callers (l : Limiter) (s : Service) : Interleaving fun _ : LimitCaller => Except ServiceError Unit :=
  .start s fun i => (i.action l).run

/-! ## The scan -/

/-- What is left of clearing once the keys have been listed. -/
def afterScan (r : Except CacheError (List String)) : Action (Except ServiceError Unit) :=
  .ask (.record (.operation .scan (.ofResult r))) fun _ =>
    match r with
    | .ok keys => (keys.forM fun key => CacheAction.lift (Cache.delete key) : ServiceAction PUnit).run
    | .error e => .done (.error (.cache e))

theorem clear_eq (l : Limiter) : l.clear.run = .ask (.engine (.keys l.attemptStem)) afterScan := by
  refine congrArg (Action.ask _) (funext fun r => ?_)
  cases r <;> rfl

/-- The scan tells which attempts count, and from then on the caller that clears may delete no other key. -/
theorem scan_step (h : y.Sound (fun _ => False) (asks l fun _ => True)) (hm : y.service.Calm m)
    (hrest : y.rest .clearer = l.clear.run) :
    let listed := (m.liveUnder y.service.clocks.monotonic l.attemptStem).map Prod.fst
    (y.apply (.step .clearer)).past =
        y.past ++ [⟨.clearer, y.service.clocks, ⟨.engine (.keys l.attemptStem), .ok listed⟩⟩] ∧
      Interleaving.Sound (fun _ => False) (asks l (· ∈ listed)) { y.apply (.step .clearer) with past := [] } := by
  intro listed
  obtain ⟨hanswer, -, hcalm⟩ := hm.answer_engine (c := .keys l.attemptStem) nofun
  rw [clear_eq] at hrest
  rw [Interleaving.apply_step_of_answered hrest hanswer]
  refine ⟨rfl, .start hcalm (fun _ => False.elim) fun i => ?_⟩
  cases i with
  | clearer =>
    change (Function.update y.rest LimitCaller.clearer (afterScan (.ok listed)) .clearer).Follows _ _
    rw [Function.update_self]
    have hdeletes := deletes_observe (D := (· ∈ listed)) fun _ hkey => hkey
    exact ⟨trivial, fun _ _ => Action.Follows.mono hdeletes fun _ _ => trivial⟩
  | recorder number =>
    have hne : LimitCaller.recorder number ≠ .clearer := nofun
    change (Function.update y.rest LimitCaller.clearer (afterScan (.ok listed)) (.recorder number)).Follows _ _
    rw [Function.update_of_ne hne]
    exact h.follows (.recorder number)

/-! ## After the scan -/

/-- An attempt that has been written counts until its window is over, if every later removal of its key is followed by
another write. -/
theorem counts_iff_restored (h : y.Sound (fun _ => False) (asks l D)) (hstart : y.past = [])
    {turns : List (Turn LimitCaller)} (hturns : ∀ t ∈ turns, t.IsOrderly) (hm : (y.after turns).service.Calm m)
    (o : Occurrence LimitCaller) (key : String) (ho : o ∈ (y.after turns).past) (hwrites : o.exchange.Writes key)
    (hnow : l.window.nanos = 0 ∨ (y.after turns).service.clocks.monotonic < o.clocks.monotonic + l.window.nanos) :
    key ∈ (m.liveUnder (y.after turns).service.clocks.monotonic l.attemptStem).map Prod.fst ↔
      Occurrence.Restores key (y.after turns).past := by
  have hafter : (y.after turns).Sound (fun _ => False) (asks l D) := h.after not_asks_close hturns
  obtain ⟨lifetime, hwritten⟩ := hwrites
  obtain ⟨hstem, rfl⟩ := attempt_of_written (hafter.admitted o ho) hwritten
  have hwrites {o : Occurrence LimitCaller} (ho : o ∈ (y.after turns).past) :
      (∃ d, Occurrence.entries.writes o key d) ↔ o.exchange.Writes key := by
    refine ⟨fun ⟨d, hd⟩ => ⟨_, hd⟩, fun ⟨lifetime, hwritten⟩ => ⟨l.window, ?_⟩⟩
    obtain ⟨-, rfl⟩ := attempt_of_written (hafter.admitted o ho) hwritten
    exact hwritten
  have honly {o : Occurrence LimitCaller} (ho : o ∈ (y.after turns).past) (d : Span)
      (hd : Occurrence.entries.writes o key d) : d = l.window :=
    Cache.lifetime_inj (attempt_of_written (hafter.admitted o ho) hd).2
  rw [Memory.mem_keys_liveUnder, ← Option.isSome_iff_exists, and_iff_right hstem,
    h.live?_iff_of_written not_asks_close hstart hturns hm ho hwritten,
    Chronicle.keeps_iff_of_writes hafter.ordered (fun o ho => honly ho)
      (fun o ho hremoves ⟨d, hd⟩ => Exchange.not_removes_of_written hd hremoves) ho hwritten hnow]
  refine forall_congr' fun before => forall_congr' fun o' => forall_congr' fun later =>
    forall_congr' fun hsplit => imp_congr_right fun _ => exists_congr fun w => and_congr_right fun hw => ?_
  exact hwrites (hsplit ▸ List.mem_append_right _ (List.mem_cons_of_mem _ hw))

/-- Clearing a limiter spares what is written later, but for the keys that it listed. A limiter is cleared while any
number of attempts are recorded with it, over an open engine in memory that may hold anything, their requests
interleaved in any order, with the clocks moving and the engine swept in between. From the scan on, nothing is removed
but by deleting a key that the scan listed. An attempt that is written after the scan counts, at any later time until
its window is over, exactly if every removal of its key since the scan is followed by another write. So it counts
whenever the scan has not listed its key. -/
theorem clear_spares_unlisted (h : s.Calm m) (l : Limiter) {before later : List (Turn LimitCaller)}
    (hbefore : ∀ t ∈ before, t.IsOrderly) (hfirst : ∀ t ∈ before, t.isOf .clearer = false)
    (hlater : ∀ t ∈ later, t.IsOrderly) :
    let y := (callers l s).after before
    let y' := (callers l s).after (before ++ .step .clearer :: later)
    ∃ (listed : List String) (newer : List (Occurrence LimitCaller)),
      (y.service.run (CacheAction.lift l.attempts).run).1 = .returned (.ok listed) ∧
      y'.past = y.past ++ ⟨.clearer, y.service.clocks, ⟨.engine (.keys l.attemptStem), .ok listed⟩⟩ :: newer ∧
      (∀ o ∈ newer, ∀ key, o.exchange.Removes key →
        o.caller = .clearer ∧ o.exchange.request = .engine (.delete key) ∧ key ∈ listed) ∧
      ∃ keys : List String,
        (y'.service.run (CacheAction.lift l.attempts).run).1 = .returned (.ok keys) ∧ keys.Nodup ∧
        (y'.service.run l.count).1 = .returned keys.length ∧
        ∀ o ∈ newer, ∀ key, o.exchange.Writes key →
          l.window.nanos = 0 ∨ y'.service.clocks.monotonic < o.clocks.monotonic + l.window.nanos →
          (key ∈ keys ↔ Occurrence.Restores key newer) ∧ (key ∉ listed → key ∈ keys) := by
  intro y y'
  have hsound : y.Sound (fun _ => False) (asks l fun _ => True) :=
    .after not_asks_close (.start h (fun _ => False.elim) (follows_asks l)) hbefore
  have hrest : y.rest .clearer = l.clear.run := Interleaving.rest_after_of_not_isOf hfirst
  obtain ⟨m₁, hm₁, -⟩ := hsound.recorded
  obtain ⟨hscan, hspares⟩ := scan_step hsound hm₁ hrest
  have hsplit : y' = (y.apply (.step .clearer)).after later := Interleaving.after_append _ _ _
  obtain ⟨newer, hnewer⟩ := (y.apply (.step .clearer)).after_past later
  have hsince := hnewer []
  have hafter := hspares.after not_asks_close hlater
  obtain ⟨m₂, hm₂, -⟩ := hafter.recorded
  have hcounts := counts_iff_restored hspares rfl hlater hm₂
  rw [hsince, List.nil_append] at hafter hm₂ hcounts
  rw [← hsplit] at hafter hm₂ hcounts
  refine ⟨(m₁.liveUnder y.service.clocks.monotonic l.attemptStem).map Prod.fst, newer, ?_, ?_, ?_,
    (m₂.liveUnder y'.service.clocks.monotonic l.attemptStem).map Prod.fst, ?_,
    m₂.nodup_keys_liveUnder _ _, ?_, ?_⟩
  · rw [run_attempts l hm₁]
  · have hpast := congrArg Interleaving.past (hnewer (y.apply (.step .clearer)).past)
    rw [hsplit]
    refine hpast.trans ?_
    rw [hscan, List.append_assoc]
    rfl
  · exact fun o ho key hremoves => deleted_of_removes (hafter.admitted o ho) hremoves
  · rw [run_attempts l hm₂]
  · rw [run_count_eq l hm₂, List.length_map]
  · intro o ho key hwrites hnow
    have hiff : _ ↔ Occurrence.Restores key newer := hcounts o key ho hwrites hnow
    refine ⟨hiff, fun hunlisted => hiff.mpr fun older o' newest heq hremoves => ?_⟩
    have ho' : o' ∈ newer := heq ▸ List.mem_append_right _ List.mem_cons_self
    exact absurd (deleted_of_removes (hafter.admitted o' ho') hremoves).2.2 hunlisted

/-- The steps in which an attempt is recorded. -/
def recording (number : Nat) : List (Turn LimitCaller) := List.replicate 3 (.step (.recorder number))

/-- Another attempt is recorded before the key of the first one is deleted. -/
def overtaking : List (Turn LimitCaller) := recording 1 ++ List.replicate 3 (.step .clearer)

/-- If the other attempt is made in the next second, it still counts when all have ended. -/
theorem clear_spares_attempt_in_next_second :
    let l := Limiter.of "otp" ["a"] (Span.ofSeconds 60)
    let s := Service.new ⟨1700000000000000000, 0⟩ (.memory (Memory.start 0 none)) .empty fun _ => 0
    let y' := (callers l s).after (recording 0 ++ .step .clearer :: .other (.advance (Span.ofSeconds 1)) :: overtaking)
    ∃ keys : List String, (y'.service.run l.count).1 = .returned keys.length ∧
      Keys.attempt l.stem 1700000001 ∈ keys := by
  intro l s y'
  have hcalm : s.Calm (Memory.start 0 none) := ⟨rfl, rfl, rfl, rfl⟩
  have hbefore : ∀ t ∈ recording 0, t.IsOrderly := by simp [recording, Turn.IsOrderly]
  have hfirst : ∀ t ∈ recording 0, t.isOf .clearer = false := by simp [recording, Turn.isOf]
  have hlater : ∀ t ∈ .other (.advance (Span.ofSeconds 1)) :: overtaking, t.IsOrderly := by
    simp [overtaking, recording, Turn.IsOrderly, ServiceEvent.IsFaultless]
  obtain ⟨listed, newer, hlisted, hpast, -, keys, -, -, hcount, hcounts⟩ :=
    clear_spares_unlisted hcalm l hbefore hfirst hlater
  have hscan : (((callers l s).after (recording 0)).service.run (CacheAction.lift l.attempts).run).1 =
      .returned (.ok ["rl:otp:a:1700000000"]) := by decide +kernel
  have hwritten : (y'.past.drop 4).any (fun o =>
      o.exchange.written? = some (Keys.attempt l.stem 1700000001, some l.window) ∧
        y'.service.clocks.monotonic < o.clocks.monotonic + l.window.nanos) = true := by decide +kernel
  have hunlisted : Keys.attempt l.stem 1700000001 ∉ ["rl:otp:a:1700000000"] := by decide +kernel
  have hlength : ((callers l s).after (recording 0)).past.length = 3 := by decide +kernel
  rw [hlisted] at hscan
  cases hscan
  rw [hpast, List.append_cons, List.drop_left' (by rw [List.length_append, hlength, List.length_singleton])]
    at hwritten
  obtain ⟨o, ho, h⟩ := List.any_eq_true.mp hwritten
  obtain ⟨hwrites, hnow⟩ := of_decide_eq_true h
  simp only [y'] at hnow
  exact ⟨keys, hcount, (hcounts o ho _ ⟨_, hwrites⟩ (.inr hnow)).2 hunlisted⟩

/-- If it is made in the same second, it is lost. It is written after the scan, all callers have succeeded, and its
window is not over, but no attempt counts. -/
theorem clear_loses_attempt_in_listed_second :
    let l := Limiter.of "otp" ["a"] (Span.ofSeconds 60)
    let s := Service.new ⟨1700000000000000000, 0⟩ (.memory (Memory.start 0 none)) .empty fun _ => 0
    let y := (callers l s).after (recording 0 ++ [.step .clearer])
    let y' := (callers l s).after (recording 0 ++ .step .clearer :: overtaking)
    (∀ i ∈ [LimitCaller.clearer, .recorder 0, .recorder 1], (y'.rest i).result? = some (.ok ())) ∧
      (∃ o ∈ y'.past.drop y.past.length, o.caller = .recorder 1 ∧
        o.exchange.Writes (Keys.attempt l.stem 1700000000) ∧
        y'.service.clocks.monotonic < o.clocks.monotonic + l.window.nanos) ∧
      (y'.service.run l.count).1 = .returned 0 := by
  intro l s y y'
  have hlost : (y'.past.drop y.past.length).any (fun o => o.caller = .recorder 1 ∧
      o.exchange.written? = some (Keys.attempt l.stem 1700000000, some l.window) ∧
      y'.service.clocks.monotonic < o.clocks.monotonic + l.window.nanos) = true := by decide +kernel
  obtain ⟨o, ho, h⟩ := List.any_eq_true.mp hlost
  obtain ⟨hcaller, hwritten, hnow⟩ := of_decide_eq_true h
  exact ⟨by decide +kernel, ⟨o, ho, hcaller, ⟨_, hwritten⟩, hnow⟩, by decide +kernel⟩

end Limiter

end Gatehouse
