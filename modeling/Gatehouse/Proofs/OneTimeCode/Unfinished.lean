import Gatehouse.Proofs.Cache.Readings
import Gatehouse.Proofs.OneTimeCode.Destination
import Gatehouse.Proofs.OneTimeCode.Retry
import Gatehouse.Proofs.Service.Exchanges

/-!
# Issues that end without a code

An issue puts its code before it records the attempt, and takes nothing back. Until it puts the code it only scans. So
an issue that does not return a code leaves all keys as they were, unless its code was put and only the attempt could
not be recorded. Then that code can be used, although nobody was told of it and it does not count
(`readings_after_unfinished_issue`).
-/

namespace Gatehouse

/-- A service has come to another one at the same time that has the same under a key. -/
structure Service.SameUnder (key : String) (s s' : Service) : Prop where
  clocks_eq : s'.clocks = s.clocks
  engine : s.engine.SameUnder s.clocks key s'.engine

namespace Service

variable {α : Type} {s s' s'' : Service} {key : String}

theorem SameUnder.refl (h : s.engine.Undisturbed) (key : String) : s.SameUnder key s := ⟨rfl, .refl h s.clocks key⟩

theorem SameUnder.trans (h : s.SameUnder key s') (h' : s'.SameUnder key s'') : s.SameUnder key s'' :=
  ⟨h'.clocks_eq.trans h.clocks_eq, h.engine.trans (h.clocks_eq ▸ h'.engine)⟩

theorem SameUnder.readings_eq (h : s.SameUnder key s') :
    s'.engine.readings s'.clocks key = s.engine.readings s.clocks key := by
  rw [h.clocks_eq]
  exact h.engine.readings_eq

/-- What an action may ask for that only scans the cache. -/
def scanning : Request → Prop
  | .engine (.keys _) => True
  | .engine _ => False
  | .store _ => False
  | _ => True

/-- An action that only scans the cache leaves what there is under every key, however it ends. -/
theorem sameUnder_run {x : Action α} {Q : α → Prop} (hx : x.Follows (.asking scanning) Q)
    (h : s.engine.Undisturbed) : ∀ key, s.SameUnder key (s.run x).2 := by
  refine (Action.run_follows (I := fun s' => ∀ key, s.SameUnder key s') (fun r s₁ hs hr => ?_) hx (.refl h)).1
  have hstill : s₁.engine.Undisturbed := (hs "").engine.undisturbed
  cases r with
  | engine c =>
    cases c with
    | keys stem =>
      refine ⟨fun key => (hs key).trans ?_, fun x hx => ?_⟩
      · change s₁.SameUnder key (s₁.callEngine (.keys stem)).2
        unfold Service.callEngine
        split
        · exact ⟨rfl, .refl hstill s₁.clocks key⟩
        · exact ⟨rfl, Engine.sameUnder_keys hstill s₁.clocks stem key⟩
      · cases x with
        | error e => trivial
        | ok keys => exact startsWith_of_scan hstill hx
    | _ => exact hr.elim
  | store c => exact hr.elim
  | clock => exact ⟨hs, fun _ _ => trivial⟩
  | draw limit count => exact ⟨fun key => ⟨(hs key).clocks_eq, (hs key).engine⟩, fun _ _ => trivial⟩
  | record e => exact ⟨fun key => ⟨(hs key).clocks_eq, (hs key).engine⟩, fun _ _ => trivial⟩

/-- A call that puts a value succeeds and leaves what there is under every other key, or it ends otherwise and leaves
what there is under every key. -/
theorem callEngine_put_cases (h : s.engine.Undisturbed) (key : String) (value : Bytes) (lifetime : Option Span) :
    ((s.callEngine (.put key value lifetime)).1 = .returned (.ok ()) ∧
        (s.callEngine (.put key value lifetime)).2.engine = (s.engine.perform s.clocks (.put key value lifetime)).2 ∧
        ∀ key', key' ≠ key → s.SameUnder key' (s.callEngine (.put key value lifetime)).2) ∨
      (s.callEngine (.put key value lifetime)).1 ≠ .returned (.ok ()) ∧
        ∀ key', s.SameUnder key' (s.callEngine (.put key value lifetime)).2 := by
  unfold Service.callEngine
  split
  · exact .inr ⟨nofun, fun key' => ⟨rfl, .refl h s.clocks key'⟩⟩
  · refine (Engine.put_cases h s.clocks key value lifetime).imp ?_ ?_
    · exact fun ⟨hok, hothers⟩ => ⟨hok, rfl, fun key' hne => ⟨rfl, hothers key' hne⟩⟩
    · exact fun ⟨hnot, hall⟩ => ⟨hnot, fun key' => ⟨rfl, hall key'⟩⟩

/-- The cache puts a value, was answered that it is put, and leaves what there is under every other key; or it ends
otherwise and leaves what there is under every key. -/
theorem run_put_cases [Json.ToJson α] {value : α} {expiration : Option Span} {o : Outcome (Except ServiceError Unit)}
    (h : s.engine.Undisturbed) (hrun : s.run (CacheAction.lift (Cache.put key value expiration)).run = (o, s')) :
    (o = .returned (.ok ()) ∧ s'.clocks = s.clocks ∧
        s'.engine = (s.engine.perform s.clocks (.put key (Json.encode value) (Cache.lifetime expiration))).2 ∧
        (⟨.engine (.put key (Json.encode value) (Cache.lifetime expiration)), .ok ()⟩ : Exchange) ∈
          s.exchanges (CacheAction.lift (Cache.put key value expiration)).run ∧
        ∀ key', key' ≠ key → s.SameUnder key' s') ∨
      o ≠ .returned (.ok ()) ∧ ∀ key', s.SameUnder key' s' := by
  have hput : Cache.put key value expiration =
      Cache.counted .put (.put key (Json.encode value) (Cache.lifetime expiration)) := rfl
  have hclocks := s.callEngine_clocks (.put key (Json.encode value) (Cache.lifetime expiration))
  have hcases := callEngine_put_cases h key (Json.encode value) (Cache.lifetime expiration)
  rw [run_liftCache, hput, run_counted] at hrun
  rw [exchanges_liftCache, hput, exchanges_counted]
  generalize s.callEngine (.put key (Json.encode value) (Cache.lifetime expiration)) = call at hrun hclocks hcases ⊢
  obtain ⟨answer, s₁⟩ := call
  rcases hcases with ⟨rfl, hengine, hothers⟩ | ⟨hnot, hall⟩
  · cases hrun
    exact .inl ⟨rfl, hclocks, hengine, List.mem_cons_self,
      fun key' hne => ⟨(hothers key' hne).clocks_eq, (hothers key' hne).engine⟩⟩
  · refine .inr ?_
    cases answer with
    | abandoned =>
      cases hrun
      exact ⟨nofun, hall⟩
    | returned r =>
      cases hrun
      refine ⟨fun heq => ?_, fun key' => ⟨(hall key').clocks_eq, (hall key').engine⟩⟩
      cases r with
      | ok _ => exact hnot rfl
      | error e => cases heq

end Service

/-- An attempt is recorded, or what there is under every key is left. -/
theorem Limiter.record_cases {l : Limiter} {s s' : Service} {o : Outcome (Except ServiceError Unit)}
    (h : s.engine.Undisturbed) (hrun : s.run l.record.run = (o, s')) :
    o = .returned (.ok ()) ∨ o ≠ .returned (.ok ()) ∧ ∀ key, s.SameUnder key s' := by
  have hrecord : s.run l.record.run = s.run (l.recordAt (Int64.ofInt s.clocks.instant.seconds)).run :=
    Service.run_bind_of_ok rfl
  rw [hrecord] at hrun
  exact (Service.run_put_cases h hrun).imp_left fun hput => hput.1

namespace OneTimeCode

variable {settings : CodeSettings} {medium credential code key : String} {s s' : Service}
  {o : Outcome (Except ServiceError String)}

/-- The call of the engine that puts a code. -/
def codeCall (settings : CodeSettings) (medium credential code : String) : EngineCall :=
  .put (Keys.code medium credential code) (Json.encode true) (Cache.lifetime (some settings.lifetime))

/-- What an issue does until it has a code. -/
def draft (settings : CodeSettings) (medium credential : String) : ServiceAction String := do
  (limiter settings medium credential).guard settings.sendLimit
  (generate settings.length : Action String)

theorem issue_eq_draft : issue settings medium credential =
    draft settings medium credential >>= file settings medium credential :=
  (bind_assoc _ _ _).symm

/-- Until it has a code, an issue only scans. -/
theorem draft_observes : Observes (.asking Service.scanning) (draft settings medium credential) fun _ => True := by
  have hopens : (Protocol.asking Service.scanning).Opens fun _ => False :=
    ⟨fun _ _ _ hkey => hkey.elim, fun _ _ hl => hl, trivial, fun _ => trivial⟩
  refine (Limiter.guard_observes hopens trivial settings.sendLimit).bind fun _ _ => Observes.lift ?_
  unfold generate
  split
  · exact Action.Follows.bind (Action.follows_request trivial) fun _ _ => trivial
  · trivial

/-- Filing a code ends with the code; or it leaves what there is under every key; or the code was put and what there is
under every other key is left. -/
theorem file_cases (h : s.engine.Undisturbed)
    (hrun : s.run (file settings medium credential code).run = (o, s')) :
    o = .returned (.ok code) ∨ (∀ key, s.SameUnder key s') ∨
      (⟨.engine (codeCall settings medium credential code), .ok ()⟩ : Exchange) ∈
          s.exchanges (file settings medium credential code).run ∧
        (∀ key, key ≠ Keys.code medium credential code → s.SameUnder key s') ∧
        s'.clocks = s.clocks ∧
        (s.engine.perform s.clocks (codeCall settings medium credential code)).2.SameUnder s.clocks
          (Keys.code medium credential code) s'.engine := by
  cases hput : s.run (CacheAction.lift
      (Cache.put (Keys.code medium credential code) true (some settings.lifetime))).run with
  | mk o₁ s₁ =>
    rcases Service.run_put_cases h hput with ⟨rfl, hclocks, hengine, hexchange, hothers⟩ | ⟨hnot, hall⟩
    · unfold file at hrun ⊢
      rw [Service.run_bind_of_ok hput] at hrun
      rw [Service.exchanges_bind]
      have hstill : s₁.engine.Undisturbed := hengine ▸ Engine.undisturbed_put h s.clocks _ _ _
      cases hrecord : s₁.run (limiter settings medium credential).record.run with
      | mk o₂ s₂ =>
        rcases Limiter.record_cases hstill hrecord with rfl | ⟨hnot, hall⟩
        · rw [Service.run_bind_of_ok hrecord] at hrun
          cases hrun
          exact .inl rfl
        · obtain rfl := Service.run_bind_of_not_ok hrecord (fun _ => hnot) hrun
          refine .inr (.inr ⟨List.mem_append_left _ hexchange, fun key hne => (hothers key hne).trans (hall key),
            (hall "").clocks_eq.trans hclocks, ?_⟩)
          have hown := (hall (Keys.code medium credential code)).engine
          rw [hclocks, hengine] at hown
          exact hown
    · obtain rfl := Service.run_bind_of_not_ok hput (fun _ => hnot) hrun
      exact .inr (.inl hall)

/-- An issue that ends without a code leaves everything that is read of any key as it was, unless its own code was put
and what came after that, to record the attempt, did not succeed. Then that is so for every other key, and what is read
of the code is what the put has put there. -/
theorem readings_after_unfinished_issue (hs : s.engine.Undisturbed)
    (hrun : s.run (issue settings medium credential).run = (o, s')) (ho : ∀ code, o ≠ .returned (.ok code)) :
    (∀ key, s'.engine.readings s'.clocks key = s.engine.readings s.clocks key) ∨
      ∃ code, (⟨.engine (codeCall settings medium credential code), .ok ()⟩ : Exchange) ∈
          s.exchanges (issue settings medium credential).run ∧
        (∀ key, key ≠ Keys.code medium credential code →
          s'.engine.readings s'.clocks key = s.engine.readings s.clocks key) ∧
        s'.engine.readings s'.clocks (Keys.code medium credential code) =
          (s.engine.perform s.clocks (codeCall settings medium credential code)).2.readings s.clocks
            (Keys.code medium credential code) := by
  have hscanned : ∀ key, s.SameUnder key (s.run (draft settings medium credential).run).2 :=
    Service.sameUnder_run draft_observes hs
  rw [issue_eq_draft] at hrun ⊢
  rw [Service.exchanges_bind]
  cases hdraft : s.run (draft settings medium credential).run with
  | mk o₁ s₁ =>
    rw [hdraft] at hscanned
    by_cases hdrafted : ∃ code, o₁ = .returned (.ok code)
    · obtain ⟨code, rfl⟩ := hdrafted
      rw [Service.run_bind_of_ok hdraft] at hrun
      rcases file_cases (hscanned "").engine.undisturbed hrun with hok | hall | ⟨hexchange, hothers, hclocks, hown⟩
      · exact absurd hok (ho code)
      · exact .inl fun key => ((hscanned key).trans (hall key)).readings_eq
      · refine .inr ⟨code, List.mem_append_right _ hexchange,
          fun key hne => ((hscanned key).trans (hothers key hne)).readings_eq, ?_⟩
        -- The put was made in the state after the scan, which shows the same under the code as the state before.
        have hput := (hscanned (Keys.code medium credential code)).engine.put (Json.encode true)
          (Cache.lifetime (some settings.lifetime))
        rw [(hscanned "").clocks_eq] at hown hclocks
        rw [hclocks]
        exact (hput.trans hown).readings_eq
    · obtain rfl := Service.run_bind_of_not_ok hdraft (fun code heq => hdrafted ⟨code, heq⟩) hrun
      exact .inl fun key => (hscanned key).readings_eq

/-- A service over a new engine in memory whose codes are all sevens. Of the next two values the first is put, and the
second takes too long. -/
def sampleUnrecorded : Service :=
  { Service.new ⟨1700000000000000000, 7⟩ (.memory (Memory.start 7 none)) .empty fun _ => 7 with
    engineFaults := (FaultPlan.empty.add .put none).add .put (some (.timeout (Span.ofSeconds 1))) }

/-- The code is put and its attempt is not recorded: what is read of every other key is what it was. -/
theorem readings_after_unrecorded_attempt :
    let s := sampleUnrecorded
    let s' := (s.run (issue {} "sms" "+1").run).2
    s.engine.Undisturbed ∧
      (s.run (issue {} "sms" "+1").run).1 = .returned (.error (.cache (.timeout (Span.ofSeconds 1)))) ∧
      (∀ key, key ≠ Keys.code "sms" "+1" "777777" →
        s'.engine.readings s'.clocks key = s.engine.readings s.clocks key) ∧
      s'.engine.readings s'.clocks (Keys.code "sms" "+1" "777777") =
        (s.engine.perform s.clocks (codeCall {} "sms" "+1" "777777")).2.readings s.clocks
          (Keys.code "sms" "+1" "777777") := by
  intro s s'
  have hfails : (s.run (issue {} "sms" "+1").run).1 = .returned (.error (.cache (.timeout (Span.ofSeconds 1)))) := by
    decide +kernel
  have hlive : (s'.engine.readings s'.clocks (Keys.code "sms" "+1" "777777")).has = .returned (.ok true) := by
    decide +kernel
  have hnone : (s.engine.readings s.clocks (Keys.code "sms" "+1" "777777")).has = .returned (.ok false) := by
    decide +kernel
  have hchanged : s'.engine.readings s'.clocks (Keys.code "sms" "+1" "777777") ≠
      s.engine.readings s.clocks (Keys.code "sms" "+1" "777777") := by
    intro heq
    rw [heq, hnone] at hlive
    cases hlive
  have hrun : s.run (issue {} "sms" "+1").run =
      (.returned (.error (.cache (.timeout (Span.ofSeconds 1)))), s') := Prod.ext hfails (by dsimp only)
  have hs : s.engine.Undisturbed := trivial
  rcases readings_after_unfinished_issue hs hrun (fun _ => nofun) with hall | ⟨code, -, hothers, hown⟩
  · exact absurd (hall _) hchanged
  · have hcode : Keys.code "sms" "+1" "777777" = Keys.code "sms" "+1" code :=
      Decidable.by_contra fun hne => hchanged (hothers _ hne)
    unfold codeCall at hown ⊢
    rw [← hcode] at hothers hown
    exact ⟨hs, hfails, hothers, hown⟩

/-- The issue fails, and its code can be used for five minutes: it does not count as sent, and is found good. The same
is left when the attempt has no deadline and the issue is abandoned. -/
theorem code_left_by_unfinished_issue :
    let s := sampleUnrecorded
    let s' := (s.run (issue {} "sms" "+1").run).2
    let endless : CodeSettings := { sendWindow := Span.ofSeconds 18446744073709551615 }
    let s'' := (sampleService.run (issue endless "sms" "+1").run).2
    (s.run (issue {} "sms" "+1").run).1 = .returned (.error (.cache (.timeout (Span.ofSeconds 1)))) ∧
      (s.engine.readings s.clocks (Keys.code "sms" "+1" "777777")).has = .returned (.ok false) ∧
      (s'.engine.readings s'.clocks (Keys.code "sms" "+1" "777777")).has = .returned (.ok true) ∧
      (s'.engine.readings s'.clocks (Keys.code "sms" "+1" "777777")).remaining =
        .returned (.ok (some (Span.ofSeconds 300))) ∧
      (s'.run (limiter {} "sms" "+1").count).1 = .returned 0 ∧
      (s'.run (verify {} "sms" "+1" "777777").run).1 = .returned (.ok true) ∧
      (sampleService.run (issue endless "sms" "+1").run).1 = .abandoned ∧
      (s''.engine.readings s''.clocks (Keys.code "sms" "+1" "777777")).has = .returned (.ok true) := by
  intro s s' endless s''
  exact ⟨by decide +kernel, by decide +kernel, by decide +kernel, by decide +kernel, by decide +kernel,
    by decide +kernel, by decide +kernel, by decide +kernel⟩

end OneTimeCode

end Gatehouse
