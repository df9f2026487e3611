import Gatehouse.Proofs.Cache.Sight
import Gatehouse.Proofs.OneTimeCode.SingleUse

/-!
# Verifications that fail

A verification takes its code before it clears the attempts. It fails if the take fails, and then all codes are as they
were. It also fails if the attempts cannot be listed or one of them cannot be deleted, and then its code is used up,
and nobody has been told that it was good (`failed_verification_keeps_codes_iff`).
-/

namespace Gatehouse

/-! ## Services that show the same of a key -/

/-- A service has come to another one at the same time, and what is seen of a key is what it was. -/
structure Service.Retains (key : String) (s s' : Service) : Prop where
  clocks_eq : s'.clocks = s.clocks
  undisturbed : s'.engine.Undisturbed
  seen : s'.engine.lease? s'.clocks key = s.engine.lease? s.clocks key

namespace Service

variable {s s' : Service} {key : String}

theorem Retains.refl (h : s.engine.Undisturbed) : s.Retains key s := ⟨rfl, h, rfl⟩

theorem Retains.trans {s'' : Service} (h : s.Retains key s') (h' : s'.Retains key s'') : s.Retains key s'' :=
  ⟨h'.clocks_eq.trans h.clocks_eq, h'.undisturbed, h'.seen.trans h.seen⟩

/-- A call that spares a key retains what is seen of it, whether it is made or fails as planned. -/
theorem retains_callEngine (h : s.engine.Undisturbed) {c : EngineCall} (hc : c.Spares key) :
    s.Retains key (s.callEngine c).2 := by
  unfold Service.callEngine
  split
  · exact ⟨rfl, h, rfl⟩
  · exact ⟨rfl, (Engine.lease?_of_spares h hc).1, (Engine.lease?_of_spares h hc).2⟩

/-- A scan that succeeds was made, and lists nothing but keys under its text. -/
theorem startsWith_of_scan (h : s.engine.Undisturbed) {stem : String} {keys : List String}
    (hkeys : (s.callEngine (.keys stem)).1 = .returned (.ok keys)) : ∀ key ∈ keys, startsWith stem key = true := by
  unfold Service.callEngine at hkeys
  split at hkeys
  · cases hkeys
  · exact Engine.startsWith_of_scan h hkeys

/-- What an action may ask for that spares a key. -/
def sparing (key : String) : Request → Prop
  | .engine c => c.Spares key
  | .record _ => True
  | _ => False

/-- An action that spares a key retains what is seen of it, however it ends. -/
theorem retains_run {α : Type} {x : Action α} {Q : α → Prop} (hx : x.Follows (.asking (sparing key)) Q)
    (h : s.engine.Undisturbed) : s.Retains key (s.run x).2 := by
  refine (Action.run_follows (I := s.Retains key) (fun r s₁ hs hr => ?_) hx (.refl h)).1
  cases r with
  | engine c =>
    refine ⟨hs.trans (retains_callEngine hs.undisturbed hr), fun x hx => ?_⟩
    cases c with
    | keys stem =>
      cases x with
      | error e => trivial
      | ok keys => exact startsWith_of_scan hs.undisturbed hx
    | _ => trivial
  | record e => exact ⟨⟨hs.clocks_eq, hs.undisturbed, hs.seen⟩, fun _ _ => trivial⟩
  | _ => exact hr.elim

end Service

namespace OneTimeCode

variable {settings : CodeSettings} {medium credential code key : String} {s s' : Service}

/-- Clearing the attempts spares all codes. -/
theorem settle_spares (settings : CodeSettings) (medium credential : String) (hkey : Keys.Part.code.Holds key)
    (taken : Bool) :
    (settle settings medium credential taken).run.Follows (.asking (Service.sparing key)) fun _ => True := by
  have hclear : Observes (.asking (Service.sparing key)) (limiter settings medium credential).clear fun _ => True := by
    refine Limiter.clear_observes_of_listed (fun _ => trivial) trivial fun keys hkeys attempt hmem heq => ?_
    have hattempt : Keys.Part.attempt.Holds attempt := Limiter.reaches_attempts _ _ _ attempt (hkeys attempt hmem)
    exact absurd (Keys.Part.eq_of_holds hattempt (heq ▸ hkey)) (by decide)
  cases taken with
  | false => exact trivial
  | true =>
    refine Action.Follows.bind hclear fun r _ => ?_
    cases r <;> exact trivial

/-- A run of a verification is the call that takes the code, and what is left to do then. -/
theorem run_verify (s : Service) (settings : CodeSettings) (medium credential code : String) :
    s.run (verify settings medium credential code).run =
      match s.callEngine (.take (Keys.code medium credential code)) with
      | (.returned r, s₁) => s₁.run (afterTake settings medium credential r)
      | (.abandoned, s₁) => (.abandoned, s₁) := by
  have htake : (verify settings medium credential code).run =
      Action.engine (.take (Keys.code medium credential code)) >>= afterTake settings medium credential :=
    verify_eq settings medium credential code
  have hcall : s.run (Action.engine (.take (Keys.code medium credential code))) =
      s.callEngine (.take (Keys.code medium credential code)) := Service.run_request _
  rw [htake, Service.run_andThen, hcall]
  obtain ⟨o, s₁⟩ := s.callEngine (.take (Keys.code medium credential code))
  cases o <;> rfl

/-- What is left to do after the take spares all codes. -/
theorem afterTake_spares (settings : CodeSettings) (medium credential : String) (hkey : Keys.Part.code.Holds key)
    (r : Except CacheError Bool) :
    (afterTake settings medium credential r).Follows (.asking (Service.sparing key)) fun _ => True := by
  refine ⟨trivial, fun _ _ => ?_⟩
  cases r with
  | ok taken => exact settle_spares settings medium credential hkey taken
  | error e => exact trivial

/-- The take of a verification fails and leaves its code as it was, or it tells whether the code was there and leaves
nothing of it. -/
theorem take_cases (h : s.engine.Undisturbed) (key : String) :
    (s.callEngine (.take key)).2.engine.Undisturbed ∧
      ((∃ err, (s.callEngine (.take key)).1 = .returned (.error err)) ∧ s.Retains key (s.callEngine (.take key)).2 ∨
        (s.callEngine (.take key)).1 = .returned (.ok (s.engine.lease? s.clocks key).isSome) ∧
          (s.callEngine (.take key)).2.engine.lease? s.clocks key = none) := by
  unfold Service.callEngine
  split
  · exact ⟨h, .inl ⟨⟨_, rfl⟩, rfl, h, rfl⟩⟩
  · obtain ⟨hstill, htold⟩ := Engine.take_cases h s.clocks key
    exact ⟨hstill, htold.imp_left fun ⟨herr, hseen⟩ => ⟨herr, rfl, hstill, hseen⟩⟩

/-- A code that is not there is not found good. -/
theorem not_verified_of_gone (h : s.engine.Undisturbed)
    (hgone : s.engine.lease? s.clocks (Keys.code medium credential code) = none) :
    (s.run (verify settings medium credential code).run).1 ≠ .returned (.ok true) := by
  obtain ⟨-, htold⟩ := take_cases h (Keys.code medium credential code)
  rw [hgone] at htold
  rw [run_verify]
  generalize s.callEngine (.take (Keys.code medium credential code)) = call at htold ⊢
  obtain ⟨o, s₁⟩ := call
  obtain ⟨⟨err, rfl⟩, -⟩ | ⟨rfl, -⟩ := htold
  · exact nofun
  · exact nofun

/-- A verification spares every code but its own. -/
theorem verify_spares (settings : CodeSettings) (hkey : Keys.Part.code.Holds key)
    (hne : key ≠ Keys.code medium credential code) :
    (verify settings medium credential code).run.Follows (.asking (Service.sparing key)) fun _ => True := by
  rw [verify_eq]
  exact ⟨Ne.symm hne, fun r _ => afterTake_spares settings medium credential hkey r⟩

/-- A verification that fails leaves all codes as they were just if it could not take its own. If it could, that code
was good and is gone, so that it is not found good any more, and all the others are as they were. -/
theorem failed_verification_keeps_codes_iff {e : ServiceError} (hs : s.engine.Undisturbed)
    (h : s.run (verify settings medium credential code).run = (.returned (.error e), s')) :
    ((∀ key, Keys.Part.code.Holds key → s'.engine.lease? s'.clocks key = s.engine.lease? s.clocks key) ↔
        ∃ err, (s.callEngine (.take (Keys.code medium credential code))).1 = .returned (.error err)) ∧
      ((∃ err, (s.callEngine (.take (Keys.code medium credential code))).1 = .returned (.error err)) ∨
        (s.engine.lease? s.clocks (Keys.code medium credential code)).isSome = true ∧
          s'.engine.lease? s'.clocks (Keys.code medium credential code) = none ∧
          (s'.run (verify settings medium credential code).run).1 ≠ .returned (.ok true) ∧
          ∀ key, Keys.Part.code.Holds key → key ≠ Keys.code medium credential code →
            s'.engine.lease? s'.clocks key = s.engine.lease? s.clocks key) := by
  have hothers (key : String) (hkey : Keys.Part.code.Holds key) (hne : key ≠ Keys.code medium credential code) :
      s'.engine.lease? s'.clocks key = s.engine.lease? s.clocks key := by
    have hretains := Service.retains_run (verify_spares settings hkey hne) hs
    rw [h] at hretains
    exact hretains.seen
  obtain ⟨hstill, htake⟩ := take_cases hs (Keys.code medium credential code)
  have hclocks := s.callEngine_clocks (.take (Keys.code medium credential code))
  rw [run_verify] at h
  generalize s.callEngine (.take (Keys.code medium credential code)) = call at hstill htake hclocks h ⊢
  obtain ⟨o, s₁⟩ := call
  cases o with
  | abandoned => cases h
  | returned r =>
    have hafter : s₁.Retains (Keys.code medium credential code) s' := by
      have hretains := Service.retains_run (afterTake_spares settings medium credential
        (Keys.code_holds medium credential code) r) hstill
      rw [show s₁.run _ = _ from h] at hretains
      exact hretains
    rcases htake with ⟨hfailed, hkept⟩ | ⟨htold, hgone⟩
    · have hall (key : String) (hkey : Keys.Part.code.Holds key) :
          s'.engine.lease? s'.clocks key = s.engine.lease? s.clocks key := by
        by_cases heq : key = Keys.code medium credential code
        · exact heq ▸ (hkept.trans hafter).seen
        · exact hothers key hkey heq
      exact ⟨iff_of_true hall hfailed, .inl hfailed⟩
    · have hlive : (s.engine.lease? s.clocks (Keys.code medium credential code)).isSome = true := by
        refine (Bool.eq_false_or_eq_true _).resolve_right fun hfalse => ?_
        rw [hfalse] at htold
        cases htold
        cases h
      have hlost : s'.engine.lease? s'.clocks (Keys.code medium credential code) = none := by
        rw [hafter.seen, show s₁.clocks = s.clocks from hclocks]
        exact hgone
      have htaken : ¬∃ err, Outcome.returned r = .returned (.error err) := by
        rintro ⟨err, herr⟩
        cases htold.symm.trans herr
      have hmissed : ¬∀ key, Keys.Part.code.Holds key →
          s'.engine.lease? s'.clocks key = s.engine.lease? s.clocks key := by
        intro hall
        rw [← hall _ (Keys.code_holds medium credential code), hlost] at hlive
        cases hlive
      exact ⟨iff_of_false hmissed htaken,
        .inr ⟨hlive, hlost, not_verified_of_gone hafter.undisturbed hlost, hothers⟩⟩

/-- A service over an engine in memory with two codes that can be used for five minutes. The next call of a method takes
too long. -/
def sampleFailing (method : Method) : Service :=
  let put (key : String) (m : Memory) : Memory :=
    (m.perform 7 (.put key (Json.encode true) (some (Span.ofSeconds 300)))).2
  let m := put (Keys.code "email" "a@b.c" "654321") (put (Keys.code "sms" "+1" "123456") (Memory.start 7 none))
  { Service.new ⟨1700000000000000000, 7⟩ (.memory m) .empty fun _ => 0 with
    engineFaults := FaultPlan.empty.add method (some (.timeout (Span.ofSeconds 1))) }

/-- If the take fails, both codes are as they were. If the attempts cannot be listed, the code is gone, and the other
one is as it was. -/
theorem codes_of_failed_verifications :
    let s := sampleFailing .take
    let t := sampleFailing .keys
    let s' := (s.run (verify {} "sms" "+1" "123456").run).2
    let t' := (t.run (verify {} "sms" "+1" "123456").run).2
    (s.run (verify {} "sms" "+1" "123456").run).1 = .returned (.error (.cache (.timeout (Span.ofSeconds 1)))) ∧
      (∀ key, Keys.Part.code.Holds key → s'.engine.lease? s'.clocks key = s.engine.lease? s.clocks key) ∧
      (t.run (verify {} "sms" "+1" "123456").run).1 = .returned (.error (.cache (.timeout (Span.ofSeconds 1)))) ∧
      t'.engine.lease? t'.clocks (Keys.code "sms" "+1" "123456") = none ∧
      t'.engine.lease? t'.clocks (Keys.code "email" "a@b.c" "654321") =
        t.engine.lease? t.clocks (Keys.code "email" "a@b.c" "654321") := by
  intro s t s' t'
  have hs : (s.run (verify {} "sms" "+1" "123456").run).1 =
      .returned (.error (.cache (.timeout (Span.ofSeconds 1)))) := by decide +kernel
  have ht : (t.run (verify {} "sms" "+1" "123456").run).1 =
      .returned (.error (.cache (.timeout (Span.ofSeconds 1)))) := by decide +kernel
  have hkept := (failed_verification_keeps_codes_iff (s := s) trivial (Prod.ext hs rfl)).1.mpr ⟨_, rfl⟩
  obtain ⟨err, herr⟩ | ⟨-, hgone, -, hothers⟩ :=
    (failed_verification_keeps_codes_iff (s := t) trivial (Prod.ext ht rfl)).2
  · cases herr
  · exact ⟨hs, hkept, ht, hgone, hothers _ (Keys.code_holds "email" "a@b.c" "654321") (by decide)⟩

/-- A code that has five minutes left is gone after a verification that only failed to list the attempts, and the same
code is not good when it is tried again. -/
theorem code_used_up_by_failed_verification :
    let s := sampleFailing .keys
    let s' := (s.run (verify {} "sms" "+1" "123456").run).2
    s.engine.Undisturbed ∧
      (s.run (verify {} "sms" "+1" "123456").run).1 = .returned (.error (.cache (.timeout (Span.ofSeconds 1)))) ∧
      s.engine.lease? s.clocks (Keys.code "sms" "+1" "123456") =
        some (.returned (.ok (some (Span.ofSeconds 300)))) ∧
      s'.engine.lease? s'.clocks (Keys.code "sms" "+1" "123456") = none ∧
      (s'.run (verify {} "sms" "+1" "123456").run).1 = .returned (.ok false) := by
  intro s s'
  exact ⟨trivial, by decide +kernel, by decide +kernel, by decide +kernel, by decide +kernel⟩

end OneTimeCode

end Gatehouse
