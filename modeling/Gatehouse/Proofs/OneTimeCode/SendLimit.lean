import Mathlib.Combinatorics.Enumerative.DoubleCounting
import Gatehouse.Proofs.Service.Course

/-!
# How many codes are sent

An issue looks at the attempts before it makes a code, and records its own attempt after that. In between, other issues
may look at the same attempts and pass too: two issues at once can both send a code where the limit is one
(`sends_exceed_limit`). The limit is exceeded by no more than the issues that were under way together with another one
(`sends_limited`).
-/

namespace Gatehouse

/-! ## Attempts -/

namespace Exchange

/-- Whether an exchange scanned the attempts of a limiter. -/
def scans (l : Limiter) (e : Exchange) : Bool :=
  match e.request with
  | .engine (.keys stem) => decide (stem = l.attemptStem)
  | _ => false

/-- The key under which an exchange recorded an attempt of a limiter. -/
def attempt? (l : Limiter) (e : Exchange) : Option String :=
  (e.written?.map Prod.fst).filter (startsWith l.attemptStem)

variable {l : Limiter} {e : Exchange} {key : String}

theorem attempt?_eq_some :
    e.attempt? l = some key ↔ startsWith l.attemptStem key = true ∧ ∃ lifetime, e.written? = some (key, lifetime) := by
  unfold attempt?
  rw [Option.filter_eq_some_iff, Option.map_eq_some_iff, and_comm]
  refine and_congr_right fun _ => ?_
  constructor
  · rintro ⟨⟨_, lifetime⟩, hwritten, rfl⟩
    exact ⟨lifetime, hwritten⟩
  · rintro ⟨lifetime, hwritten⟩
    exact ⟨_, hwritten, rfl⟩

end Exchange

namespace OneTimeCode

open Interleaving

section

variable {ι : Type} [DecidableEq ι]

/-- A caller is under way: its guard has looked at the attempts of a limiter, and it has not recorded its own yet. -/
def UnderWay (l : Limiter) (past : List (Occurrence ι)) (i : ι) : Prop :=
  (∃ e ∈ own past i, e.scans l = true) ∧ ∀ e ∈ own past i, e.attempt? l = none

instance (l : Limiter) (past : List (Occurrence ι)) (i : ι) : Decidable (UnderWay l past i) :=
  inferInstanceAs (Decidable (_ ∧ _))

/-- Whoever has looked at the attempts and is not under way any more has recorded its own. -/
theorem recorded_of_not_underWay {l : Limiter} {past : List (Occurrence ι)} {i : ι}
    (hscanned : ∃ e ∈ own past i, e.scans l = true) (h : ¬UnderWay l past i) :
    ∃ w ∈ past, w.caller = i ∧ ∃ key, key ∈ w.exchange.attempt? l := by
  have hown : ¬∀ e ∈ own past i, e.attempt? l = none := fun hnone => h ⟨hscanned, hnone⟩
  push Not at hown
  obtain ⟨e, he, hkey⟩ := hown
  obtain ⟨w, hw, hcaller, rfl⟩ := mem_own.mp he
  exact ⟨w, hw, hcaller, Option.ne_none_iff_exists'.mp hkey⟩

end

variable {settings : CodeSettings} {medium credential : String}

/-- The requests that an issue may make: the attempts of its limiter are recorded for its window, and nothing is
removed. -/
def sending (settings : CodeSettings) (medium credential : String) : Request → Prop
  | .engine (.put key _ lifetime) =>
    startsWith (limiter settings medium credential).attemptStem key = true →
      lifetime = Cache.lifetime (some settings.sendWindow)
  | .engine (.delete _) | .engine (.take _) | .engine .flush | .engine .close => False
  | _ => True

theorem follows_sending (settings : CodeSettings) (medium credential : String) :
    (issue settings medium credential).run.Follows (.asking (sending settings medium credential)) fun _ => True := by
  have hopens : (Protocol.asking (sending settings medium credential)).Opens fun _ => False :=
    ⟨fun _ _ _ h => h.elim, fun _ _ hl => hl, trivial, fun _ => trivial⟩
  refine Action.Follows.mono (issue_observes hopens (.inr trivial) trivial (fun _ _ => trivial) (fun code _ hkey => ?_)
    fun _ _ _ => rfl) fun _ _ => trivial
  have hattempt := Limiter.reaches_attempts space [medium, credential] settings.sendWindow _ hkey
  exact absurd (Keys.Part.eq_of_holds hattempt (Keys.code_holds medium credential code)) (by decide)

section

variable {e : Exchange} {key : String} {lifetime : Option Span}

theorem lifetime_of_sending (h : sending settings medium credential e.request)
    (hkey : startsWith (limiter settings medium credential).attemptStem key = true)
    (hwritten : e.written? = some (key, lifetime)) : lifetime = Cache.lifetime (some settings.sendWindow) := by
  obtain ⟨value, hrequest⟩ := Exchange.request_of_written hwritten
  rw [hrequest] at h
  exact h hkey

theorem not_removes_of_sending (h : sending settings medium credential e.request)
    (hkey : startsWith (limiter settings medium credential).attemptStem key = true) : ¬e.Removes key := by
  obtain ⟨r, x⟩ := e
  unfold Exchange.Removes
  split
  · rename_i heq
    cases heq
    exact h.elim
  · rename_i heq
    cases heq
    exact h.elim
  · rename_i heq
    cases heq
    rintro ⟨hd, rfl⟩
    exact absurd hd (Cache.nanos_ne_zero_of_lifetime (h hkey).symm)
  · rename_i heq
    cases heq
    exact h.elim
  · exact id

/-- An attempt that has been recorded is kept for the window. -/
theorem keeps_of_attempt {past : List (Occurrence Nat)} {now : Nat} {o : Occurrence Nat}
    (hpast : ∀ o ∈ past, sending settings medium credential o.exchange.request)
    (hordered : past.Pairwise fun o o' => o.clocks.monotonic ≤ o'.clocks.monotonic) (ho : o ∈ past)
    (hkey : o.exchange.attempt? (limiter settings medium credential) = some key)
    (hnow : now < o.clocks.monotonic + settings.sendWindow.nanos) : Occurrence.entries.Keeps now key past := by
  obtain ⟨hstem, lifetime, hwritten⟩ := Exchange.attempt?_eq_some.mp hkey
  obtain rfl := lifetime_of_sending (hpast o ho) hstem hwritten
  refine Chronicle.keeps_of_writes (C := Occurrence.entries) hordered (fun o' ho' d' hwritten' => ?_)
    (fun o' ho' => not_removes_of_sending (hpast o' ho') hstem) ho hwritten hnow
  exact Cache.lifetime_inj (lifetime_of_sending (hpast o' ho') hstem hwritten')

end

/-! ## Issues at work together -/

/-- Issues to one destination, none of which has made a request yet. -/
def sends (s : Service) (settings : CodeSettings) (medium credential : String) :
    Interleaving fun _ : Nat => Except ServiceError String :=
  .start s fun _ => (issue settings medium credential).run

/-- Issues that have ended with a code, and recorded their attempts within a period that is shorter than the window.
Each recorded its own in another second than the others, and there was none of that second in the engine before. -/
structure Sent (settings : CodeSettings) (medium credential : String) (m : Memory) (start : Nat) (S : Finset Nat)
    (y : Interleaving fun _ : Nat => Except ServiceError String) : Prop where
  returned : ∀ i ∈ S, ∃ code, y.rest i = .done (.ok code)
  within : ∀ o ∈ y.past, o.caller ∈ S → ∀ key ∈ o.exchange.attempt? (limiter settings medium credential),
    start ≤ o.clocks.monotonic ∧ o.clocks.monotonic < start + settings.sendWindow.nanos
  apart : ∀ o ∈ y.past, ∀ o' ∈ y.past, o.caller ∈ S → o'.caller ∈ S →
    ∀ key ∈ o.exchange.attempt? (limiter settings medium credential),
      key ∈ o'.exchange.attempt? (limiter settings medium credential) → o.caller = o'.caller
  fresh : ∀ o ∈ y.past, o.caller ∈ S → ∀ key ∈ o.exchange.attempt? (limiter settings medium credential),
    m.entries.get? key = none

variable {s : Service} {m : Memory} {start : Nat} {S : Finset Nat} {turns : List (Turn Nat)}

/-- The exchanges of an issue that has passed: it listed fewer attempts than its limit, and recorded its own after that,
without looking again. -/
def Passed (settings : CodeSettings) (medium credential : String) (es : List Exchange) : Prop :=
  ∃ (r : Except CacheError (List String)) (rest : List Exchange),
    es = ⟨.engine (.keys (limiter settings medium credential).attemptStem), r⟩ :: rest ∧
      (∀ keys, r = .ok keys → keys.length < settings.sendLimit) ∧
      (∀ e ∈ rest, e.scans (limiter settings medium credential) = false) ∧
      ∃ e ∈ rest, ∃ key, e.attempt? (limiter settings medium credential) = some key

theorem passed_of_returned {i : Nat} {code : String}
    (h : ((sends s settings medium credential).after turns).rest i = .done (.ok code)) :
    Passed settings medium credential (own ((sends s settings medium credential).after turns).past i) := by
  obtain ⟨x, hleads, hrest⟩ := leads_after s (fun _ => (issue settings medium credential).run) turns i
  obtain rfl : .done (.ok code) = x := h.symm.trans (hrest.resolve_right fun hnone => nomatch h.symm.trans hnone)
  obtain ⟨r, event, count, digits, key, b, event', now, second, b', event'', hown, hlimit⟩ := issue_leads hleads
  refine ⟨r, _, hown, hlimit, by simp [Exchange.scans],
    ⟨.engine (.put (Keys.attempt (limiter settings medium credential).stem second) b'
      (Cache.lifetime (some settings.sendWindow))), .ok ()⟩, by simp, _,
    Exchange.attempt?_eq_some.mpr ⟨startsWith_append _ _, _, rfl⟩⟩

/-- The only scan of an issue is its first exchange. -/
theorem own_of_scan {past before later : List (Occurrence Nat)} {o : Occurrence Nat} {l : Limiter} {e : Exchange}
    {rest : List Exchange} (hpast : past = before ++ o :: later) (hown : own past o.caller = e :: rest)
    (hrest : ∀ e ∈ rest, e.scans l = false) (hscans : o.exchange.scans l = true) :
    o.exchange = e ∧ own later o.caller = rest := by
  have hfrom : own (o :: later) o.caller = o.exchange :: own later o.caller := by
    unfold own
    rw [List.filter_cons_of_pos (by simp), List.map_cons]
  rw [hpast, own_append, hfrom] at hown
  cases hbefore : own before o.caller with
  | nil =>
    rw [hbefore] at hown
    exact List.cons.inj hown
  | cons e' es =>
    rw [hbefore, List.cons_append] at hown
    have hmem : o.exchange ∈ rest := (List.cons.inj hown).2 ▸ List.mem_append_right _ List.mem_cons_self
    rw [hrest _ hmem] at hscans
    cases hscans

/-- The attempts in seconds that were not recorded before are told by what the issues have done. -/
abbrev SoundSends (settings : CodeSettings) (medium credential : String) (m : Memory)
    (y : Interleaving fun _ : Nat => Except ServiceError String) : Prop :=
  y.Sound
    (fun key => startsWith (limiter settings medium credential).attemptStem key = true ∧ m.entries.get? key = none)
    fun _ => sending settings medium credential

/-- A scan lists the attempts that were recorded before it, as long as their window is not over. -/
theorem listed_of_scan {y : Interleaving fun _ : Nat => Except ServiceError String}
    {before later : List (Occurrence Nat)} {o : Occurrence Nat} {r : Except CacheError (List String)}
    (h : SoundSends settings medium credential m y) (hpast : y.past = before ++ o :: later)
    (hexchange : o.exchange = ⟨.engine (.keys (limiter settings medium credential).attemptStem), r⟩) :
    ∃ keys, r = .ok keys ∧
      ∀ w ∈ before, ∀ key ∈ w.exchange.attempt? (limiter settings medium credential), m.entries.get? key = none →
        o.clocks.monotonic < w.clocks.monotonic + settings.sendWindow.nanos → key ∈ keys := by
  have htold : o.Told _ before := h.told before o ⟨later, by rw [hpast, List.append_assoc]; rfl⟩
  unfold Occurrence.Told at htold
  rw [hexchange] at htold
  obtain ⟨keys, hr, -, hmem⟩ := htold
  refine ⟨keys, hr, fun w hw key hkey hfresh hnow => ?_⟩
  have hstem := (Exchange.attempt?_eq_some.mp hkey).1
  have hadmitted : ∀ o ∈ before, sending settings medium credential o.exchange.request :=
    fun o ho => h.admitted o (hpast ▸ List.mem_append_left _ ho)
  have hordered := (List.pairwise_append.mp (hpast ▸ h.ordered)).1
  exact (hmem key ⟨hstem, hfresh⟩).mpr ⟨hstem, keeps_of_attempt hadmitted hordered hw hkey hnow⟩

/-- When the last of some issues has looked at the attempts, those that they have recorded are fewer than the limit. -/
theorem exists_last_scan {y : Interleaving fun _ : Nat => Except ServiceError String}
    (h : SoundSends settings medium credential m y) (hsent : Sent settings medium credential m start S y)
    (hpassed : ∀ i ∈ S, Passed settings medium credential (own y.past i)) (hS : S.Nonempty) :
    ∃ (past : List (Occurrence Nat)) (keys : List String), past <+: y.past ∧ keys.length < settings.sendLimit ∧
      (∀ i ∈ S, ∃ e ∈ own past i, e.scans (limiter settings medium credential) = true) ∧
      ∀ w ∈ past, w.caller ∈ S → ∀ key ∈ w.exchange.attempt? (limiter settings medium credential), key ∈ keys := by
  have hscan (i : Nat) (hi : i ∈ S) : ∃ o ∈ y.past, o.caller = i ∧
      o.exchange.scans (limiter settings medium credential) = true := by
    obtain ⟨r, rest, hown, -⟩ := hpassed i hi
    obtain ⟨o, ho, hcaller, hexchange⟩ := mem_own.mp (hown ▸ List.mem_cons_self)
    exact ⟨o, ho, hcaller, hexchange ▸ decide_eq_true rfl⟩
  obtain ⟨i₀, hi₀⟩ := hS
  obtain ⟨o₀, ho₀, rfl, hscan₀⟩ := hscan i₀ hi₀
  obtain ⟨before, o, later, hpast, ⟨hoS, hscans⟩, hlast⟩ := Since.of_mem
    (A := fun o => o.caller ∈ S ∧ o.exchange.scans (limiter settings medium credential) = true) ho₀ ⟨hi₀, hscan₀⟩
  obtain ⟨r, rest, hown, hlimit, hrest, e, he, key, hkey⟩ := hpassed o.caller hoS
  obtain ⟨hexchange, rfl⟩ := own_of_scan hpast hown hrest hscans
  obtain ⟨keys, rfl, hlisted⟩ := listed_of_scan h hpast hexchange
  -- It records its own attempt later, and still within the period.
  have hnow : o.clocks.monotonic < start + settings.sendWindow.nanos := by
    obtain ⟨w, hw, hcaller, rfl⟩ := mem_own.mp he
    have hle := (List.pairwise_cons.mp (List.pairwise_append.mp (hpast ▸ h.ordered)).2.1).1 w hw
    exact Nat.lt_of_le_of_lt hle (hsent.within w (by simp [hpast, hw]) (hcaller ▸ hoS) key hkey).2
  refine ⟨before ++ [o], keys, ⟨later, by rw [hpast, List.append_assoc]; rfl⟩, hlimit keys rfl, fun i hi => ?_,
    fun w hw hwS key hkey => ?_⟩
  · obtain ⟨o', ho', rfl, hscans'⟩ := hscan i hi
    refine ⟨_, mem_own.mpr ⟨o', ?_, rfl, rfl⟩, hscans'⟩
    rw [hpast, List.append_cons] at ho'
    rcases List.mem_append.mp ho' with ho' | ho'
    · exact ho'
    · exact absurd ⟨hi, hscans'⟩ (hlast o' ho')
  · rcases List.mem_append.mp hw with hw | hw
    · have hmem : w ∈ y.past := hpast ▸ List.mem_append_left _ hw
      have hstart := (hsent.within w hmem hwS key hkey).1
      exact hlisted w hw key hkey (hsent.fresh w hmem hwS key hkey) (by omega)
    · obtain rfl := List.mem_singleton.mp hw
      rw [hexchange] at hkey
      cases hkey

/-- The limit of sent codes. Any number of issues to one destination work together over an open engine in memory, their
requests interleaved in any order, with the clocks moving and the engine swept in between. Of those that recorded their
attempts within a period shorter than the window, each in a second of its own, as many can end with a code as the limit
says, and besides as many as were under way at once with another one. So the limit holds for issues of which one is
under way at a time. -/
theorem sends_limited (h : s.Calm m) (hturns : ∀ t ∈ turns, t.IsOrderly) {k : Nat}
    (hsent : Sent settings medium credential m start S ((sends s settings medium credential).after turns))
    (hbusy : ∀ past, past <+: ((sends s settings medium credential).after turns).past →
      (S.filter (UnderWay (limiter settings medium credential) past)).card ≤ k + 1) :
    S.card ≤ settings.sendLimit + k := by
  have hsound : SoundSends settings medium credential m ((sends s settings medium credential).after turns) :=
    .after (fun _ => id) (.start h (fun _ => And.right) fun _ => follows_sending settings medium credential) hturns
  have hpassed : ∀ i ∈ S, Passed settings medium credential
      (own ((sends s settings medium credential).after turns).past i) := by
    intro i hi
    obtain ⟨code, hcode⟩ := hsent.returned i hi
    exact passed_of_returned hcode
  generalize (sends s settings medium credential).after turns = y at hsent hbusy hsound hpassed
  rcases S.eq_empty_or_nonempty with rfl | hS
  · exact Nat.zero_le _
  obtain ⟨past, keys, hmoment, hfew, hscanned, hlisted⟩ := exists_last_scan hsound hsent hpassed hS
  -- Whoever is not under way any more has recorded an attempt, under a key that nobody else did.
  have hidle : (S.filter fun i => ¬UnderWay (limiter settings medium credential) past i).card ≤ keys.length := by
    refine (Finset.card_le_card_of_forall_subsingleton
      (fun i key => ∃ w ∈ past, w.caller = i ∧ key ∈ w.exchange.attempt? (limiter settings medium credential))
      (t := keys.toFinset) (fun i hi => ?_) ?_).trans keys.toFinset_card_le
    · obtain ⟨hiS, hnot⟩ := Finset.mem_filter.mp hi
      obtain ⟨w, hw, hcaller, key, hkey⟩ := recorded_of_not_underWay (hscanned i hiS) hnot
      exact ⟨key, List.mem_toFinset.mpr (hlisted w hw (hcaller ▸ hiS) key hkey), w, hw, hcaller, hkey⟩
    · rintro key - _ ⟨hi, w, hw, rfl, hkey⟩ _ ⟨hj, w', hw', rfl, hkey'⟩
      exact hsent.apart w (hmoment.subset hw) w' (hmoment.subset hw') (Finset.mem_filter.mp hi).1
        (Finset.mem_filter.mp hj).1 key hkey hkey'
  have htotal := Finset.card_filter_add_card_filter_not (s := S) (UnderWay (limiter settings medium credential) past)
  have hunderWay := hbusy past hmoment
  omega

/-! ## Two issues at once -/

/-- Two issues look at the attempts before either of them has recorded its own. -/
def overrun : List (Turn Nat) :=
  List.replicate 2 (.step 0) ++ List.replicate 2 (.step 1) ++ List.replicate 6 (.step 0) ++
    [.other (.advance (Span.ofSeconds 1))] ++ List.replicate 6 (.step 1)

theorem sent_overrun :
    Sent { sendLimit := 1 } "sms" "ann" (Memory.start 0 none) 0 {0, 1}
      ((sends (Service.new ⟨0, 0⟩ (.memory (Memory.start 0 none)) .empty fun _ => 7) { sendLimit := 1 } "sms"
        "ann").after overrun) where
  returned i hi := by
    have hcases : i = 0 ∨ i = 1 := by simpa using hi
    refine ⟨"777777", Action.result?_eq_some.mp ?_⟩
    rcases hcases with rfl | rfl
    · decide +kernel
    · decide +kernel
  within := by decide +kernel
  apart := by decide +kernel
  fresh := by decide +kernel

/-- Both of them end with a code where the limit is one. -/
theorem sends_limited_of_two :
    let s := Service.new ⟨0, 0⟩ (.memory (Memory.start 0 none)) .empty fun _ => 7
    let y := (sends s { sendLimit := 1 } "sms" "ann").after overrun
    (∀ t ∈ overrun, t.IsOrderly) ∧ Sent { sendLimit := 1 } "sms" "ann" (Memory.start 0 none) 0 {0, 1} y ∧
      (∀ past, past <+: y.past →
        (({0, 1} : Finset Nat).filter (UnderWay (limiter { sendLimit := 1 } "sms" "ann") past)).card ≤ 1 + 1) ∧
      ({0, 1} : Finset Nat).card ≤ ({ sendLimit := 1 } : CodeSettings).sendLimit + 1 := by
  intro s y
  have horderly : ∀ t ∈ overrun, t.IsOrderly := by
    simp [overrun, Turn.IsOrderly, ServiceEvent.IsFaultless]
  have hbusy : ∀ past, past <+: y.past →
      (({0, 1} : Finset Nat).filter (UnderWay (limiter { sendLimit := 1 } "sms" "ann") past)).card ≤ 1 + 1 :=
    fun past _ => Finset.card_filter_le _ _
  exact ⟨horderly, sent_overrun, hbusy, sends_limited ⟨rfl, rfl, rfl, rfl⟩ horderly sent_overrun hbusy⟩

/-- Issues that are at work together can exceed the limit. -/
theorem sends_exceed_limit :
    let s := Service.new ⟨0, 0⟩ (.memory (Memory.start 0 none)) .empty fun _ => 7
    s.Calm (Memory.start 0 none) ∧ (∀ t ∈ overrun, t.IsOrderly) ∧
      Sent { sendLimit := 1 } "sms" "ann" (Memory.start 0 none) 0 {0, 1}
        ((sends s { sendLimit := 1 } "sms" "ann").after overrun) ∧
      ¬({0, 1} : Finset Nat).card ≤ ({ sendLimit := 1 } : CodeSettings).sendLimit := by
  refine ⟨⟨rfl, rfl, rfl, rfl⟩, ?_, sent_overrun, by decide⟩
  simp [overrun, Turn.IsOrderly, ServiceEvent.IsFaultless]

end OneTimeCode

end Gatehouse
