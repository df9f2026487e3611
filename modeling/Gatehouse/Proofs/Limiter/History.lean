import Gatehouse.Proofs.Limiter.Count
import Gatehouse.Proofs.Service.Chronicle
import Gatehouse.Proofs.Service.Transcript

/-!
# What a limiter counts, told by what happened

The attempts that count are known from the calls that were made and what they ended with: an attempt counts if it has
been recorded, no limiter has cleared it since, and the window with which it was recorded last is not over. This holds
whichever limiters recorded and cleared it (`counts_recorded`).
-/

namespace Gatehouse

/-! ## What the calls on limiters record and clear -/

/-- The key of the attempt that a call records, and the window for which it is recorded. -/
def ServiceCall.attempt? (clocks : Clocks) : ServiceCall → Option (String × Span)
  | recordAttempt space ids window =>
    some (Keys.attempt (Keys.limiterStem space ids) (Int64.ofInt clocks.instant.seconds).toInt, window)
  | recordAttemptAt space ids window second =>
    some (Keys.attempt (Keys.limiterStem space ids) second.toInt, window)
  | _ => none

/-- The text under which a call clears the attempts. -/
def ServiceCall.clears? : ServiceCall → Option String
  | clearAttempts space ids window => some (Limiter.of space ids window).attemptStem
  | _ => none

/-- A call recorded an attempt under a key, for a window. -/
def Answered.Records (a : Answered) (key : String) (window : Span) : Prop :=
  (∃ reply, a.outcome = .returned (.ok reply)) ∧ a.call.attempt? a.clocks = some (key, window)

/-- A call cleared the attempts under a text that a key starts with. -/
def Answered.Clears (a : Answered) (key : String) : Prop :=
  ∃ stem, a.call.clears? = some stem ∧ startsWith stem key = true

/-- What the calls of a transcript did to attempts. -/
def Answered.attempts : Chronicle Answered := ⟨fun a => a.clocks.monotonic, Answered.Records, Answered.Clears⟩

/-- A call on a limiter, or an event that is no call and plans no failure. -/
def ServiceEvent.IsAboutLimits : ServiceEvent → Prop
  | call (.recordAttempt _ _ _) | call (.recordAttemptAt _ _ _ _) | call (.countAttempts _ _ _)
  | call (.guardAttempts _ _ _ _) | call (.clearAttempts _ _ _) => True
  | call _ => False
  | e => e.IsFaultless

namespace Memory

variable {m : Memory} {now t : Nat} {key : String}

/-- Of the entries that could be live from now on, clearing takes those under the text away. -/
theorem live?_cleared (stem : String) (h : now ≤ t) :
    (m.cleared now stem).live? t key = if startsWith stem key = true then none else m.live? t key := by
  have hget : (m.cleared now stem).entries.get? key =
      if key ∈ (m.liveUnder now stem).map Prod.fst then none else m.entries.get? key :=
    Table.get?_foldl_erase _ m.entries key
  by_cases hkey : key ∈ (m.liveUnder now stem).map Prod.fst
  · rw [if_pos hkey] at hget
    rw [if_pos (mem_keys_liveUnder.mp hkey).1, live?, hget]
    rfl
  · rw [if_neg hkey] at hget
    have hsame : (m.cleared now stem).live? t key = m.live? t key := by
      unfold live?
      rw [hget]
    rw [hsame]
    split
    · rename_i hstem
      refine Option.eq_none_iff_forall_ne_some.mpr fun e he => hkey ?_
      exact mem_keys_liveUnder.mpr ⟨hstem, e, live?_of_later h he⟩
    · rfl

end Memory

namespace Limiter

variable {s s' : Service} {m : Memory}

/-! ## Runs of the calls -/

theorem run_count_eq (l : Limiter) (h : s.Calm m) :
    s.run l.count =
      (.returned (m.liveUnder s.clocks.monotonic l.attemptStem).length,
        { s with metrics := s.metrics.record (.operation .scan .ok) }) := by
  unfold count attempts Cache.keys
  rw [Service.run_andThen, Service.run_counted, h.callEngine_eq, Memory.respond, ← h.engine,
    ← List.length_map Prod.fst]
  rfl

/-- A guard rejects exactly when the attempts that count have reached the limit. -/
theorem run_guard (l : Limiter) (limit : Nat) (h : s.Calm m) :
    ∃ metrics, s.run (l.guard limit).run =
      (.returned (if limit ≤ (m.liveUnder s.clocks.monotonic l.attemptStem).length then
          .error (.rateLimited limit (m.liveUnder s.clocks.monotonic l.attemptStem).length)
        else .ok ()), { s with metrics }) := by
  unfold guard
  change ∃ metrics, s.run (l.count >>= fun used => _) = _
  rw [Service.run_andThen, run_count_eq l h]
  by_cases hlimit : limit ≤ (m.liveUnder s.clocks.monotonic l.attemptStem).length
  · simp only [if_pos hlimit]
    exact ⟨_, rfl⟩
  · simp only [if_neg hlimit]
    exact ⟨_, rfl⟩

/-- Counting changes nothing but the counts of events. -/
theorem apply_count (h : s.Calm m) (space : String) (ids : List String) (window : Span) :
    ∃ metrics, s.apply (.call (.countAttempts space ids window)) = { s with metrics } := by
  refine ⟨s.metrics.record (.operation .scan .ok), ?_⟩
  change (s.run (liftM (of space ids window).count : ServiceAction Nat).run).2 = _
  rw [Service.run_lift, run_count_eq _ h]

/-- Neither does a guard. -/
theorem apply_guard (h : s.Calm m) (space : String) (ids : List String) (window : Span) (limit : Nat) :
    ∃ metrics, s.apply (.call (.guardAttempts space ids window limit)) = { s with metrics } := by
  obtain ⟨metrics, hrun⟩ := run_guard (of space ids window) limit h
  exact ⟨metrics, congrArg Prod.snd hrun⟩

/-- An attempt is recorded under its second, unless there is no deadline for it. -/
theorem run_recordAt (l : Limiter) (second : Int64) (h : s.Calm m) :
    ∃ o s', s.run (l.recordAt second).run = (o, s') ∧ s'.clocks = s.clocks ∧
      (o = .returned (.ok ()) ∧
          s'.Calm
            { m with
              entries := m.entries.insert (Keys.attempt l.stem second.toInt)
                ⟨Json.encode second, (Cache.lifetime (some l.window)).map fun d => s.clocks.monotonic + d.nanos⟩ } ∨
        o = .abandoned ∧ s'.Calm m) :=
  h.run_put _ second _

/-! ## The calls of a run -/

/-- A calm service whose live attempts are those that have been recorded and not cleared. -/
abbrev Counted (s : Service) (l : List Answered) : Prop := s.Mirrors Answered.attempts Keys.Part.attempt.Holds l

namespace Counted

variable {l : List Answered} {a : Answered}

theorem not_records {key : String} {window : Span} (h : a.call.attempt? a.clocks = none) :
    ¬Answered.attempts.writes a key window := by
  rintro ⟨-, hrec⟩
  rw [hrec] at h
  cases h

theorem clears_iff {key stem : String} (h : a.call.clears? = some stem) :
    Answered.attempts.removes a key ↔ startsWith stem key = true := by
  change (∃ stem, a.call.clears? = some stem ∧ startsWith stem key = true) ↔ _
  rw [h]
  exact ⟨fun ⟨_, hstem, hkey⟩ => Option.some.inj hstem ▸ hkey, fun hkey => ⟨stem, rfl, hkey⟩⟩

theorem not_clears {key : String} (h : a.call.clears? = none) : ¬Answered.attempts.removes a key := by
  rintro ⟨stem, hstem, -⟩
  rw [h] at hstem
  cases hstem

/-- A call that leaves everything but the counts of events as it was. -/
theorem ignored (h : Counted s l) (hs' : ∃ metrics, s' = { s with metrics })
    (hattempt : a.call.attempt? a.clocks = none) (hclears : a.call.clears? = none) : Counted s' (l ++ [a]) := by
  obtain ⟨m, hm, hmirrors⟩ := h
  obtain ⟨metrics, rfl⟩ := hs'
  exact ⟨m, ⟨hm.engine, hm.isOpen, hm.engineFaults, hm.storeFaults⟩,
    hmirrors.ignored (fun key window _ => not_records hattempt) fun key _ => not_clears hclears⟩

/-- A call that records an attempt, or is abandoned if there is no deadline for it. -/
theorem recorded (limiter : Limiter) {second : Int64} (h : Counted s l) (hclocks : a.clocks = s.clocks)
    (hattempt : a.call.attempt? a.clocks = some (Keys.attempt limiter.stem second.toInt, limiter.window))
    (hclears : a.call.clears? = none)
    (hok : (s.run (limiter.recordAt second).run).1 = .returned (.ok ()) → ∃ reply, a.outcome = .returned (.ok reply))
    (habandoned : (s.run (limiter.recordAt second).run).1 = .abandoned → a.outcome = .abandoned) :
    Counted (s.run (limiter.recordAt second).run).2 (l ++ [a]) := by
  obtain ⟨m, hm, hmirrors⟩ := h
  obtain ⟨o, s', hrun, hclocks', hs'⟩ := run_recordAt limiter second hm
  rw [hrun] at hok habandoned ⊢
  unfold Counted Service.Mirrors
  rw [hclocks', ← hclocks]
  rw [← hclocks] at hmirrors hs'
  rcases hs' with ⟨ho, hcalm⟩ | ⟨ho, hcalm⟩
  · refine ⟨_, hcalm, hmirrors.written ⟨hok ho, hattempt⟩ (fun key' window' hrec => ?_)
      (fun key _ => not_clears hclears) _⟩
    exact Prod.mk.inj (Option.some.inj (hrec.2.symm.trans hattempt))
  · refine ⟨m, hcalm, hmirrors.ignored (fun key window _ hrec => ?_) fun key _ => not_clears hclears⟩
    obtain ⟨⟨reply, hreply⟩, -⟩ := hrec
    rw [habandoned ho] at hreply
    cases hreply

theorem passes {e : ServiceEvent} (h : Counted s l) (he : e.IsFaultless) (hcall : ∀ c, e ≠ .call c) :
    Counted (s.apply e) (l ++ s.transcript [e]) := by
  rw [Service.transcript_cons hcall]
  exact (List.append_nil l).symm ▸ h.apply he hcall

/-- Every event of a run on limiters keeps the live attempts those that count. -/
theorem event {e : ServiceEvent} (h : Counted s l) (he : e.IsAboutLimits) :
    Counted (s.apply e) (l ++ s.transcript [e]) := by
  cases e with
  | call c =>
    obtain ⟨m, hm, hmirrors⟩ := h
    cases c with
    | recordAttempt space ids window =>
      exact recorded (.of space ids window) ⟨m, hm, hmirrors⟩ rfl rfl rfl (fun ho => ⟨(), ho⟩) id
    | recordAttemptAt space ids window second =>
      exact recorded (.of space ids window) ⟨m, hm, hmirrors⟩ rfl rfl rfl (fun ho => ⟨(), ho⟩) id
    | countAttempts space ids window =>
      exact ignored ⟨m, hm, hmirrors⟩ (apply_count hm space ids window) rfl rfl
    | guardAttempts space ids window limit =>
      exact ignored ⟨m, hm, hmirrors⟩ (apply_guard hm space ids window limit) rfl rfl
    | clearAttempts space ids window =>
      obtain ⟨s', hrun, hclocks, hcalm⟩ := run_clear (of space ids window) hm
      have hs' : s.apply (.call (.clearAttempts space ids window)) = s' := congrArg Prod.snd hrun
      rw [hs']
      refine ⟨_, hcalm, ?_⟩
      rw [hclocks]
      refine hmirrors.removed (fun key window _ => not_records rfl) fun key t _ ht => ?_
      rw [Memory.live?_cleared _ ht, clears_iff rfl]
      split <;> simp [*]
    | _ => exact he.elim
  | _ => exact passes h he nofun

/-- After every run on limiters the live attempts are those that count. -/
theorem after {events : List ServiceEvent} (h : Counted s []) (hevents : ∀ e ∈ events, e.IsAboutLimits) :
    Counted (s.after events) (s.transcript events) := by
  induction events using List.reverseRecOn with
  | nil => exact h
  | append_singleton events e ih =>
    have hbefore := ih fun e' he' => hevents e' (List.mem_append_left _ he')
    have hafter : s.after (events ++ [e]) = (s.after events).apply e := List.foldl_append
    rw [hafter, Service.transcript_append]
    exact hbefore.event (hevents e (List.mem_append_right _ List.mem_cons_self))

end Counted

/-- A limiter counts what has been recorded. In every run of calls on limiters, of any name spaces, ids and windows,
over an open engine in memory that holds no attempt, with the clocks moving and the engine swept in between, the count
of a limiter is the number of keys under its text whose latest record came after the latest clearing of them, less than
the window of that record ago. A guard rejects exactly when this number has reached its limit. Neither of the two
changes anything that a later event is answered. -/
theorem counts_recorded (h : s.Calm m) (hnone : ∀ key, Keys.Part.attempt.Holds key → m.entries.get? key = none)
    {events : List ServiceEvent} (hevents : ∀ e ∈ events, e.IsAboutLimits) (space : String) (ids : List String)
    (window : Span) :
    ∃ keys : List String, keys.Nodup ∧
      (∀ key, key ∈ keys ↔ startsWith (of space ids window).attemptStem key = true ∧
        Answered.attempts.Keeps (s.after events).clocks.monotonic key (s.transcript events)) ∧
      ((s.after events).run (of space ids window).count).1 = .returned keys.length ∧
      (∀ limit, ((s.after events).run ((of space ids window).guard limit).run).1 =
        .returned (if limit ≤ keys.length then .error (.rateLimited limit keys.length) else .ok ())) ∧
      ∀ later : List ServiceEvent,
        ((s.after events).apply (.call (.countAttempts space ids window))).transcript later =
            (s.after events).transcript later ∧
          ∀ limit, ((s.after events).apply (.call (.guardAttempts space ids window limit))).transcript later =
            (s.after events).transcript later := by
  have hstart : Counted s [] := ⟨m, h, .start hnone⟩
  obtain ⟨m', hm', hmirrors⟩ := hstart.after hevents
  generalize s.after events = s' at hm' hmirrors ⊢
  have halike {s₁ : Service} (hs₁ : ∃ metrics, s₁ = { s' with metrics }) (later : List ServiceEvent) :
      s₁.transcript later = s'.transcript later := by
    obtain ⟨metrics, rfl⟩ := hs₁
    exact (Service.Alike.counting hm'.engine metrics).transcript_eq later
  refine ⟨(m'.liveUnder s'.clocks.monotonic (of space ids window).attemptStem).map Prod.fst,
    m'.nodup_keys_liveUnder _ _, fun key => ?_, ?_, fun limit => ?_, fun later =>
    ⟨halike (apply_count hm' space ids window) later,
      fun limit => halike (apply_guard hm' space ids window limit) later⟩⟩
  · rw [Memory.mem_keys_liveUnder]
    refine and_congr_right fun hkey => ?_
    rw [← hmirrors key _ (reaches_attempts space ids window key hkey) (Nat.le_refl _), Option.isSome_iff_exists]
  · rw [run_count_eq _ hm', List.length_map]
  · obtain ⟨metrics, hrun⟩ := run_guard (of space ids window) limit hm'
    rw [hrun, List.length_map]

/-- Two limiters share a text and have different windows. The second of them records one of the two attempts again, for
ten seconds. Fifteen seconds later that one does not count any more. -/
def sharedRun : List ServiceEvent :=
  [.call (.recordAttemptAt "otp" ["sms", "ann"] (Span.ofSeconds 60) 100), .advance (Span.ofSeconds 30), .prune,
    .call (.recordAttemptAt "otp" ["sms", "ann"] (Span.ofSeconds 60) 101),
    .call (.recordAttemptAt "otp" ["sms_ann"] (Span.ofSeconds 10) 100), .shiftWall (-5),
    .advanceMonotonic (Span.ofSeconds 15)]

theorem counts_recorded_under_shared_text :
    let s := Service.new ⟨0, 0⟩ (.memory (Memory.start 0 none)) .empty fun _ => 7
    (∃ keys : List String, keys.length = 1 ∧ keys.Nodup ∧
      ∀ key, key ∈ keys ↔
        startsWith (of "otp" ["sms", "ann"] (Span.ofSeconds 60)).attemptStem key = true ∧
          Answered.attempts.Keeps 45000000000 key (s.transcript sharedRun)) ∧
      ((s.after sharedRun).run ((of "otp" ["sms", "ann"] (Span.ofSeconds 60)).guard 1).run).1 =
        .returned (.error (.rateLimited 1 1)) := by
  have hcount : (((Service.new ⟨0, 0⟩ (.memory (Memory.start 0 none)) .empty fun _ => 7).after sharedRun).run
      (of "otp" ["sms", "ann"] (Span.ofSeconds 60)).count).1 = .returned 1 := by decide +kernel
  have hlimits : ∀ e ∈ sharedRun, e.IsAboutLimits := by
    simp [sharedRun, ServiceEvent.IsAboutLimits, ServiceEvent.IsFaultless]
  obtain ⟨keys, hnodup, hmem, hkeys, hguard, -⟩ :=
    counts_recorded (s := Service.new ⟨0, 0⟩ (.memory (Memory.start 0 none)) .empty fun _ => 7)
      (m := Memory.start 0 none) ⟨rfl, rfl, rfl, rfl⟩ (fun _ _ => rfl) hlimits "otp" ["sms", "ann"] (Span.ofSeconds 60)
  have hone : keys.length = 1 := Outcome.returned.inj (hkeys.symm.trans hcount)
  refine ⟨⟨keys, hone, hnodup, hmem⟩, ?_⟩
  rw [hguard 1, hone]
  rfl

end Limiter

end Gatehouse
