import Gatehouse.Startup
import Gatehouse.Proofs.Limiter.History
import Gatehouse.Proofs.OneTimeCode.Destination
import Gatehouse.Proofs.Service.Interleaving
import Gatehouse.Proofs.Text.Bytes

/-!
# When codes can be made

An issue over the engine in memory puts a code and an attempt, each to go after a span of the settings. It is abandoned
if the instant at which one of them is to go does not exist, and the environment may hold any number of seconds. Where
the instants exist, and there is room for the digits, an issue always ends with a code or a failure.
-/

namespace Gatehouse

/-! ## Spans in settings -/

/-- Codes can be made at a time: there is room for their digits, and what is put for them goes at an instant that
exists, if it goes at all. -/
structure CodeSettings.Fit (now : Nat) (c : CodeSettings) : Prop where
  length : c.length ≤ OneTimeCode.maxLength
  lifetime : c.lifetime.seconds = 0 ∨ now / 1000000000 + c.lifetime.seconds < secondLimit
  sendWindow : c.sendWindow.seconds = 0 ∨ now / 1000000000 + c.sendWindow.seconds < secondLimit

instance (now : Nat) (c : CodeSettings) : Decidable (c.Fit now) :=
  decidable_of_iff
    (c.length ≤ OneTimeCode.maxLength ∧
      (c.lifetime.seconds = 0 ∨ now / 1000000000 + c.lifetime.seconds < secondLimit) ∧
      (c.sendWindow.seconds = 0 ∨ now / 1000000000 + c.sendWindow.seconds < secondLimit))
    ⟨fun ⟨hlength, hlifetime, hwindow⟩ => ⟨hlength, hlifetime, hwindow⟩,
      fun h => ⟨h.length, h.lifetime, h.sendWindow⟩⟩

namespace Environment

variable {env : Environment} {settings : Settings} {c : CodeSettings}

theorem codes_of_settings (h : env.settings = .ok settings) : env.codes = .ok settings.codes := by
  obtain ⟨engine, -, h⟩ := exists_of_bind_ok h
  obtain ⟨interval, -, h⟩ := exists_of_bind_ok h
  obtain ⟨codes, hcodes, h⟩ := exists_of_bind_ok h
  obtain ⟨address, -, h⟩ := exists_of_bind_ok h
  cases h
  exact hcodes

/-- The spans of codes are whole numbers of seconds. -/
theorem exists_seconds (h : env.codes = .ok c) :
    ∃ lifetime window, c.lifetime = Span.ofSeconds lifetime ∧ c.sendWindow = Span.ofSeconds window := by
  obtain ⟨length, -, h⟩ := exists_of_bind_ok h
  obtain ⟨lifetime, -, h⟩ := exists_of_bind_ok h
  obtain ⟨limit, -, h⟩ := exists_of_bind_ok h
  obtain ⟨window, -, h⟩ := exists_of_bind_ok h
  split at h
  · cases h
  · cases h
    exact ⟨lifetime, window, rfl, rfl⟩

end Environment

/-- A deadline a whole number of seconds from now exists, if it is needed, just if its second is below the limit. -/
theorem Memory.deadline_exists_iff {now n : Nat} :
    (∀ d, Cache.lifetime (some (Span.ofSeconds n)) = some d → (deadline? now d).isSome = true) ↔
      (Span.ofSeconds n).seconds = 0 ∨ now / 1000000000 + (Span.ofSeconds n).seconds < secondLimit := by
  have hseconds : (Span.ofSeconds n).seconds = n := Nat.mul_div_cancel n (by decide)
  rw [hseconds]
  by_cases hn : n = 0
  · subst hn
    exact iff_of_true (fun d hd => by cases hd) (.inl rfl)
  · have hlifetime : Cache.lifetime (some (Span.ofSeconds n)) = some (Span.ofSeconds n) := by
      refine Option.filter_some_pos (decide_eq_true ?_)
      exact Nat.mul_ne_zero hn (by decide)
    have hdeadline : (deadline? now (Span.ofSeconds n)).isSome = true ↔
        now + n * 1000000000 < secondLimit * 1000000000 := by
      unfold deadline? Span.ofSeconds
      split
      · rename_i hlt
        exact iff_of_true rfl hlt
      · rename_i hlt
        exact iff_of_false Bool.false_ne_true hlt
    rw [hlifetime]
    constructor
    · intro h
      have hlt := hdeadline.mp (h _ rfl)
      exact .inr (by omega)
    · rintro (h | h) d hd
      · exact absurd h hn
      · obtain rfl := Option.some.inj hd
        exact hdeadline.mpr (by omega)

/-- The engine stays in memory, whatever callers do at the same time and whatever happens to the service. -/
theorem Interleaving.inMemory_after {ι : Type} [DecidableEq ι] {β : ι → Type} {y : Interleaving β}
    (h : y.service.InMemory) (turns : List (Turn ι)) : (y.after turns).service.InMemory := by
  induction turns generalizing y with
  | nil => exact h
  | cons t rest ih =>
    refine ih ?_
    cases t with
    | other e => exact h.apply e
    | step i =>
      have hsteps := y.steps_apply i
      generalize y.apply (.step i) = y' at hsteps ⊢
      cases hsteps with
      | ended => exact h
      | answered r next x hrest hanswer => exact h.answer r
      | abandoned r next hrest hanswer => exact h.answer r

/-! ## Issues that end -/

namespace OneTimeCode

variable {s : Service} {m : Memory} {now : Nat} {settings : CodeSettings} {medium credential : String}

/-- Requests that are always answered: nothing is put that is to go at an instant which does not exist. -/
def lasting (now : Nat) : Protocol where
  admits
    | .engine (.put _ _ lifetime) => ∀ d, lifetime = some d → (Memory.deadline? now d).isSome = true
    | .engine _ | .clock | .draw _ _ | .record _ => True
    | .store _ => False
  tells
    | .engine c, x => Discipline.told c x
    | _, _ => True
  abandons := False

/-- An engine in memory answers every call, if what it puts goes at an instant that exists. -/
theorem exists_answer (m : Memory) {c : EngineCall} (hc : (lasting now).admits (.engine c)) :
    ∃ r, (m.perform now c).1 = .returned r := by
  unfold Memory.perform
  split
  · exact ⟨_, rfl⟩
  · have hreplies : ∃ r, (m.respond now c).1 = .returned r ∧ (m.slots.presentAt now).Replies .any now c r :=
      Memory.respond_replies fun key b d heq => by
        subst heq
        exact hc d rfl
    obtain ⟨r, hr, -⟩ := hreplies
    exact ⟨r, hr⟩

theorem answers_of_lasting (hs : s.InMemory ∧ s.clocks.monotonic = now) (r : Request) (hr : (lasting now).admits r) :
    ∃ x s', s.answer r = (.returned x, s') ∧ (s'.InMemory ∧ s'.clocks.monotonic = now) ∧ (lasting now).tells r x := by
  obtain ⟨⟨m, hm⟩, hnow⟩ := hs
  have hanswered (x : r.Answer) (hx : (s.answer r).1 = .returned x) :
      ∃ x s', s.answer r = (.returned x, s') ∧ (s'.InMemory ∧ s'.clocks.monotonic = now) ∧
        (lasting now).tells r x := by
    have htells := Service.answer_tells (A := fun _ => True) hm r x hx
    refine ⟨x, (s.answer r).2, Prod.ext hx rfl, ⟨Service.InMemory.answer ⟨m, hm⟩ r, ?_⟩, htells⟩
    rw [s.answer_clocks r, hnow]
  cases r with
  | store c => exact hr.elim
  | clock => exact hanswered _ rfl
  | draw limit count => exact hanswered _ rfl
  | record e => exact hanswered _ rfl
  | engine c =>
    obtain ⟨r, hanswer⟩ := exists_answer m hr
    cases hfault : s.engineFaults.next c.method with
    | some e =>
      refine hanswered (.error e) ?_
      change (s.callEngine c).1 = _
      unfold Service.callEngine
      rw [hfault]
    | none =>
      refine hanswered r ?_
      change (s.callEngine c).1 = _
      unfold Service.callEngine
      rw [hfault, hm, ← hanswer, ← hnow]
      rfl

/-- Over an engine in memory an issue ends with a code or a failure, in every state, if codes can be made. -/
theorem exists_result (h : s.InMemory) (hlength : settings.length ≤ maxLength)
    (hlifetime : ∀ d, Cache.lifetime (some settings.lifetime) = some d →
      (Memory.deadline? s.clocks.monotonic d).isSome = true)
    (hwindow : ∀ d, Cache.lifetime (some settings.sendWindow) = some d →
      (Memory.deadline? s.clocks.monotonic d).isSome = true) :
    ∃ r, (s.run (issue settings medium credential).run).1 = .returned r := by
  have hopens : (lasting s.clocks.monotonic).Opens fun _ => False :=
    ⟨fun _ _ _ hkey => hkey.elim, fun _ _ hl => hl, trivial, fun _ => trivial⟩
  have hissue : Observes (lasting s.clocks.monotonic) (issue settings medium credential) fun _ => True :=
    issue_observes hopens (.inl hlength) trivial (fun _ _ => trivial) (fun _ _ => hlifetime) fun _ _ => hwindow
  obtain ⟨r, hrun, -⟩ := Action.run_follows_to_end
    (I := fun s' : Service => s'.InMemory ∧ s'.clocks.monotonic = s.clocks.monotonic) id
    (fun r _ hs hr => answers_of_lasting hs r hr) hissue ⟨h, rfl⟩
  exact ⟨r, hrun⟩

/-! ## Issues that are abandoned -/

theorem run_bind_abandoned {ε α β : Type} {x : ExceptT ε Action α} {f : α → ExceptT ε Action β}
    (h : (s.run x.run).1 = .abandoned) : (s.run (x >>= f).run).1 = .abandoned := by
  rw [Service.run_bind]
  revert h
  obtain ⟨o, s₁⟩ := s.run x.run
  rintro rfl
  rfl

/-- What is to go at an instant that does not exist is not put. -/
theorem run_put_abandoned {α : Type} [Json.ToJson α] (h : s.Calm m) (key : String) (value : α)
    {expiration : Option Span}
    (hover : ¬∀ d, Cache.lifetime expiration = some d → (Memory.deadline? s.clocks.monotonic d).isSome = true) :
    (s.run (CacheAction.lift (Cache.put key value expiration)).run).1 = .abandoned := by
  have hput : Cache.put key value expiration =
      Cache.counted .put (.put key (Json.encode value) (Cache.lifetime expiration)) := rfl
  rw [hput, Service.run_liftCache, Service.run_counted, h.callEngine_eq, Memory.respond_put_of_overflow hover]
  rfl

theorem run_record_abandoned (l : Limiter) (h : s.Calm m)
    (hover : ¬∀ d, Cache.lifetime (some l.window) = some d → (Memory.deadline? s.clocks.monotonic d).isSome = true) :
    (s.run l.record.run).1 = .abandoned := by
  have hclock : s.run (liftM (Action.clock : Action Instant) : ServiceAction Instant).run =
      (.returned (.ok s.clocks.instant), s) := rfl
  unfold Limiter.record
  rw [Service.run_bind_of_ok hclock]
  exact run_put_abandoned h _ _ hover

/-- If nothing else stops an issue, it is abandoned when codes cannot be made. -/
theorem abandoned_of_calm (h : s.Calm m)
    (hlimit : (m.liveUnder s.clocks.monotonic (limiter settings medium credential).attemptStem).length <
      settings.sendLimit)
    (hunfit : ¬(settings.length ≤ maxLength ∧
      (∀ d, Cache.lifetime (some settings.lifetime) = some d → (Memory.deadline? s.clocks.monotonic d).isSome = true) ∧
      ∀ d, Cache.lifetime (some settings.sendWindow) = some d →
        (Memory.deadline? s.clocks.monotonic d).isSome = true)) :
    (s.run (issue settings medium credential).run).1 = .abandoned := by
  obtain ⟨metrics, hguard⟩ := Limiter.run_guard (limiter settings medium credential) settings.sendLimit h
  rw [if_neg (Nat.not_le.mpr hlimit)] at hguard
  rw [issue_eq, Service.run_bind_of_ok hguard]
  by_cases hlength : settings.length ≤ maxLength
  · have hgenerate : ∃ code entropy, ({ s with metrics } : Service).run (liftM (generate settings.length) :
        ServiceAction String).run = (.returned (.ok code), { s with metrics, entropy }) := by
      unfold generate
      rw [if_pos hlength]
      exact ⟨_, _, rfl⟩
    obtain ⟨code, entropy, hgenerate⟩ := hgenerate
    rw [Service.run_bind_of_ok hgenerate]
    have hcalm : ({ s with metrics, entropy } : Service).Calm m :=
      ⟨h.engine, h.isOpen, h.engineFaults, h.storeFaults⟩
    by_cases hlifetime : ∀ d, Cache.lifetime (some settings.lifetime) = some d →
        (Memory.deadline? s.clocks.monotonic d).isSome = true
    · have hwindow : ¬∀ d, Cache.lifetime (some settings.sendWindow) = some d →
          (Memory.deadline? s.clocks.monotonic d).isSome = true := fun hw => hunfit ⟨hlength, hlifetime, hw⟩
      obtain ⟨o, s', hput, hclocks, ⟨rfl, hcalm'⟩ | ⟨rfl, -⟩⟩ :=
        hcalm.run_put (Keys.code medium credential code) true (some settings.lifetime)
      · rw [file, Service.run_bind_of_ok hput]
        refine run_bind_abandoned (run_record_abandoned _ hcalm' ?_)
        rw [hclocks]
        exact hwindow
      · exact run_bind_abandoned (congrArg Prod.fst hput)
    · exact run_bind_abandoned (run_put_abandoned hcalm _ _ hlifetime)
  · refine run_bind_abandoned ?_
    rw [Service.run_lift]
    unfold generate
    rw [if_neg hlength]
    rfl

/-! ## Accepted settings -/

theorem fit_iff {env : Environment} {c : CodeSettings} (h : env.codes = .ok c) :
    c.Fit now ↔ c.length ≤ maxLength ∧
      (∀ d, Cache.lifetime (some c.lifetime) = some d → (Memory.deadline? now d).isSome = true) ∧
      ∀ d, Cache.lifetime (some c.sendWindow) = some d → (Memory.deadline? now d).isSome = true := by
  obtain ⟨lifetime, window, hlifetime, hwindow⟩ := Environment.exists_seconds h
  rw [hlifetime, hwindow, Memory.deadline_exists_iff, Memory.deadline_exists_iff, ← hlifetime, ← hwindow]
  exact ⟨fun hfit => ⟨hfit.length, hfit.lifetime, hfit.sendWindow⟩,
    fun ⟨hlength, hlifetime, hwindow⟩ => ⟨hlength, hlifetime, hwindow⟩⟩

/-- A service is started over the engine in memory with settings that the environment holds, and then anything happens
to it while callers run any programs, which may be left half done. An issue ends with a code or a failure, whatever
fails, if codes can be made at that time: there is room for their digits, and no span reaches the first second of the
forward clock that has no instant. Otherwise an issue that nothing else stops is abandoned. -/
theorem issue_ends_iff_fit {env : Environment} {settings : Settings} (hsettings : env.settings = .ok settings)
    (hmemory : settings.engine = .memory) (around : Surroundings) {engine : Engine}
    (hengine : Engine.ofSettings around settings.engine settings.pruneInterval = .ok engine) (store : TokenStore)
    (entropy : Nat → Nat) {ι : Type} [DecidableEq ι] {β : ι → Type} (programs : (i : ι) → Action (β i))
    (turns : List (Turn ι)) (medium credential : String) :
    let s := ((Interleaving.start (Service.new around.clocks engine store entropy) programs).after turns).service
    (settings.codes.Fit s.clocks.monotonic →
      ∃ r, (s.run (issue settings.codes medium credential).run).1 = .returned r) ∧
    ∀ m : Memory, s.Calm m →
      (m.liveUnder s.clocks.monotonic (limiter settings.codes medium credential).attemptStem).length <
        settings.codes.sendLimit →
      ¬settings.codes.Fit s.clocks.monotonic →
        (s.run (issue settings.codes medium credential).run).1 = .abandoned := by
  intro s
  have hcodes := Environment.codes_of_settings hsettings
  have hstart : (Service.new around.clocks engine store entropy).InMemory := by
    rw [hmemory] at hengine
    exact ⟨_, (Except.ok.inj hengine).symm⟩
  refine ⟨fun hfit => ?_, fun m hcalm hlimit hunfit => ?_⟩
  · obtain ⟨hlength, hlifetime, hwindow⟩ := (fit_iff hcodes).mp hfit
    exact exists_result (Interleaving.inMemory_after hstart turns) hlength hlifetime hwindow
  · exact abandoned_of_calm hcalm hlimit (mt (fit_iff hcodes).mpr hunfit)

/-- What the engines find in the samples: the clocks show the year 2023, and the machine has run for eleven days. -/
def sampleSurroundings : Surroundings := ⟨⟨1700000000000000000, 1000000000000000⟩, Table.empty, .refused, 50⟩

/-- Codes that can be used for a day are sent, and one issue is left half done. A minute later the engine is still
open, so the next issue needs the instants at which its attempt and its code expire. -/
theorem issue_ends_after_unfinished_issue :
    let env : Environment := fun name => if name = "OTP_CODE_TTL_SECONDS" then some " 86400" else none
    let settings : Settings := { codes := { lifetime := Span.ofSeconds 86400 } }
    let engine : Engine := .memory (Memory.start 1000000000000000 settings.pruneInterval)
    let programs := fun _ : Unit => (issue settings.codes "email" "mary@example.com").run
    let turns : List (Turn Unit) :=
      [.other (.call .loadRevocations), .step (), .step (), .other (.advance (Span.ofSeconds 60))]
    let s := ((Interleaving.start (Service.new sampleSurroundings.clocks engine .empty fun _ => 7) programs).after
      turns).service
    env.settings = .ok settings ∧ settings.engine = .memory ∧
      Engine.ofSettings sampleSurroundings settings.engine settings.pruneInterval = .ok engine ∧
      (∃ m, s.engine = .memory m ∧ m.closed = false) ∧ settings.codes.Fit s.clocks.monotonic ∧
      ∃ r, (s.run (issue settings.codes "sms" "+886900000000").run).1 = .returned r := by
  intro env settings engine programs turns s
  have hsettings : env.settings = .ok settings := by decide +kernel
  have hfit : settings.codes.Fit s.clocks.monotonic := by decide +kernel
  obtain ⟨hends, -⟩ := issue_ends_iff_fit hsettings rfl sampleSurroundings rfl .empty (fun _ => 7) programs turns
    "sms" "+886900000000"
  exact ⟨hsettings, rfl, rfl, ⟨_, rfl, Memory.closed_tick _ _⟩, hfit, hends hfit⟩

/-- The environment holds the largest number of seconds, which is accepted, and the first issue is abandoned. -/
theorem issue_abandoned_of_largest_lifetime :
    let env : Environment := fun name =>
      if name = "OTP_CODE_TTL_SECONDS" then some "18446744073709551615" else none
    let settings : Settings := { codes := { lifetime := Span.ofSeconds 18446744073709551615 } }
    let engine : Engine := .memory (Memory.start 1000000000000000 settings.pruneInterval)
    let s := Service.new sampleSurroundings.clocks engine .empty fun _ => 7
    env.settings = .ok settings ∧ settings.engine = .memory ∧
      Engine.ofSettings sampleSurroundings settings.engine settings.pruneInterval = .ok engine ∧
      (s.run (issue settings.codes "sms" "+886900000000").run).1 = .abandoned := by
  refine ⟨by decide +kernel, rfl, rfl, ?_⟩
  decide +kernel

end OneTimeCode

end Gatehouse
