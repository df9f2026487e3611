import Mathlib.Data.List.Induction
import Gatehouse.Proofs.Keys.Separators
import Gatehouse.Proofs.Service.Events

/-!
# Codes and their destinations

A code is good only if it is under the key that an issue put it under. In a run in which every issue ends with a code or
is rejected by its limiter, a verification that succeeds names the key of a code that was returned before
(`verified_was_issued`). The key tells the destination if there is no underscore in the media and no colon in the
code; otherwise a code can be good for a destination that it was not sent to (`verified_elsewhere`).
-/

namespace Gatehouse

variable {ε α β : Type}

/-! ## Actions that only the cache can fail -/

/-- An action that fails only with a failure of the cache. -/
def FailsByCache (x : ServiceAction α) : Prop :=
  ∀ (s : Service) (e : ServiceError), (s.run x.run).1 = .returned (.error e) → ∃ cause, e = .cache cause

namespace FailsByCache

theorem pure (a : α) : FailsByCache (Pure.pure a : ServiceAction α) := fun _ _ h => nomatch h

theorem lift (x : Action α) : FailsByCache (liftM x : ServiceAction α) := by
  intro s e h
  rw [Service.run_lift] at h
  revert h
  cases (s.run x).1 with
  | returned a => exact fun h => nomatch h
  | abandoned => exact fun h => nomatch h

theorem liftCache (x : CacheAction α) : FailsByCache (CacheAction.lift x) := by
  intro s e h
  rw [Service.run_liftCache] at h
  revert h
  cases (s.run x.run).1 with
  | abandoned => exact fun h => nomatch h
  | returned r =>
    intro h
    cases r with
    | ok a => cases h
    | error cause =>
      cases h
      exact ⟨cause, rfl⟩

theorem bind {x : ServiceAction α} {f : α → ServiceAction β} (hx : FailsByCache x) (hf : ∀ a, FailsByCache (f a)) :
    FailsByCache (x >>= f) := by
  intro s e h
  have hfirst := hx s
  rw [Service.run_bind] at h
  revert h hfirst
  cases s.run x.run with
  | mk o s₁ =>
    cases o with
    | abandoned => exact fun h => nomatch h
    | returned r =>
      cases r with
      | ok a => exact fun h _ => hf a s₁ e h
      | error e' =>
        intro h hfirst
        cases h
        exact hfirst e rfl

end FailsByCache

/-! ## The codes in the engine -/

namespace Memory

variable {m : Memory} {now : Nat} {K K' : String → Prop}

/-- Every code in the engine is under a key that satisfies a condition. -/
def CodesIn (K : String → Prop) (m : Memory) : Prop :=
  ∀ key e, Keys.Part.code.Holds key → m.entries.get? key = some e → K key

theorem CodesIn.mono (h : m.CodesIn K) (hK : ∀ key, K key → K' key) : m.CodesIn K' :=
  fun key e hkey he => hK key (h key e hkey he)

/-- A call that puts no code under a key that does not satisfy a condition. -/
def files (K : String → Prop) : EngineCall → Prop
  | .put key _ _ => Keys.Part.code.Holds key → K key
  | _ => True

theorem CodesIn.prune (h : m.CodesIn K) : (m.prune now).CodesIn K := by
  intro key e hkey he
  unfold Memory.prune at he
  rw [Table.get?_filter] at he
  exact h key e hkey (Option.filter_eq_some_iff.mp he).1

theorem CodesIn.tick (h : m.CodesIn K) : (m.tick now).CodesIn K := by
  have hprune : (m.prune now).CodesIn K := h.prune
  unfold CodesIn at h hprune ⊢
  rcases m.entries_tick now with heq | heq
  · rw [heq]
    exact h
  · rw [heq]
    exact hprune

theorem CodesIn.perform {c : EngineCall} (h : m.CodesIn K) (hc : files K c) : (m.perform now c).2.CodesIn K := by
  have herase (key' : String) : CodesIn K { m with entries := m.entries.erase key' } := by
    intro key e hkey he
    rw [Table.get?_erase] at he
    split at he
    · cases he
    · exact h key e hkey he
  have hempty {closed : Bool} : CodesIn K { m with entries := Table.empty, closed } := by
    intro key e hkey he
    cases he
  have hinsert {key' : String} {value : Bytes} {lifetime : Option Span} (hc : files K (.put key' value lifetime))
      (e' : Entry) : CodesIn K { m with entries := m.entries.insert key' e' } := by
    intro key e hkey he
    rw [Table.get?_insert] at he
    split at he
    · rename_i heq
      exact heq ▸ hc (heq ▸ hkey)
    · exact h key e hkey he
  have hbecomes := m.becomes_perform now c
  generalize (m.perform now c).2 = m' at hbecomes ⊢
  cases hbecomes with
  | same c => exact h
  | inserted key' value lifetime => exact hinsert hc _
  | deleted key' => exact herase key'
  | taken key' => exact herase key'
  | flushed => exact hempty
  | closed => exact hempty

end Memory

namespace OneTimeCode

variable {s s' : Service} {m : Memory} {K K' : String → Prop} {clocks : Clocks} {settings : CodeSettings}
  {medium credential code : String}

/-- What the service keeps to so that codes are put under keys only that satisfy a condition. -/
def filing (K : String → Prop) (clocks : Clocks) : Discipline where
  calls := Memory.files K
  records _ := True
  now := clocks.instant

theorem filing_opens : (filing K clocks).Opens Keys.Part.attempt.Holds := by
  refine ⟨fun _ => trivial, ?_⟩
  intro c key hc hkey
  cases c <;> cases hc <;> try trivial
  case put => exact fun hcode => nomatch Keys.Part.eq_of_holds hkey hcode

/-- A service over an engine in memory whose codes are all under keys that satisfy a condition. -/
def Files (K : String → Prop) (s : Service) : Prop := ∃ m, s.engine = .memory m ∧ m.CodesIn K

theorem Files.mono (h : Files K s) (hK : ∀ key, K key → K' key) : Files K' s := by
  obtain ⟨m, hm, hcodes⟩ := h
  exact ⟨m, hm, hcodes.mono hK⟩

/-- Whatever keeps to the discipline leaves all codes under such keys. -/
theorem Files.run {x : ExceptT ε Action α} {Q : α → Prop} {o : Outcome (Except ε α)} (h : Files K s)
    (hx : Abides (filing K s.clocks) x Q) (hrun : s.run x.run = (o, s')) :
    Files K s' ∧ ∀ a, o = .returned (.ok a) → Q a := by
  obtain ⟨hkept, hresult⟩ := Service.run_keeps (D := filing K s.clocks) (J := Memory.CodesIn K)
    (fun m c hJ hc => hJ.perform hc) rfl hx ⟨rfl, h, fun _ _ => trivial⟩
  rw [hrun] at hkept hresult
  exact ⟨hkept.engine, fun a ha => hresult (.ok a) ha a rfl⟩

/-! ## Issuing -/

/-- What an issue does once it has a code. -/
def file (settings : CodeSettings) (medium credential code : String) : ServiceAction String := do
  CacheAction.lift (Cache.put (Keys.code medium credential code) true (some settings.lifetime))
  (limiter settings medium credential).record
  return code

theorem issue_eq : issue settings medium credential = (do
    (limiter settings medium credential).guard settings.sendLimit
    let code ← (generate settings.length : Action String)
    file settings medium credential code) := rfl

theorem file_abides (hK : K (Keys.code medium credential code)) :
    Abides (filing K clocks) (file settings medium credential code) fun a => a = code := by
  refine (Abides.liftCache (Cache.put_abides fun b _ => hK)).bind ?_
  intro _ _
  refine (Limiter.record_abides filing_opens (Limiter.reaches_attempts _ _ _)).bind ?_
  intro _ _
  exact Abides.pure rfl

theorem file_fails : FailsByCache (file settings medium credential code) := by
  refine (FailsByCache.liftCache _).bind fun _ => ?_
  have hrecord : FailsByCache (limiter settings medium credential).record :=
    (FailsByCache.lift _).bind fun _ => FailsByCache.liftCache _
  exact hrecord.bind fun _ => FailsByCache.pure _

theorem colon_not_mem_ofDigits {n : Nat} (digits : Fin n → Fin 10) : ':' ∉ (ofDigits digits).toList := by
  have hdigit : ∀ d : Fin 10, Digits.digitChar d.val ≠ ':' := by decide
  unfold ofDigits
  rw [String.toList_ofList]
  intro hmem
  obtain ⟨i, -, hi⟩ := List.mem_map.mp hmem
  exact hdigit (digits i) hi

/-- A code that is made has no colon, and making it changes no entry. -/
theorem generate_ok {length : Nat} (h : s.run (generate length) = (.returned code, s')) :
    ':' ∉ code.toList ∧ s'.engine = s.engine := by
  unfold generate at h
  split at h
  · cases h
    exact ⟨colon_not_mem_ofDigits _, rfl⟩
  · cases h

/-- An issue that ends with a code has put that one under its key, and no other. -/
theorem issue_ok (h : Files K s) (hrun : s.run (issue settings medium credential).run = (.returned (.ok code), s')) :
    ':' ∉ code.toList ∧ Files (fun key => K key ∨ key = Keys.code medium credential code) s' := by
  rw [issue_eq] at hrun
  obtain ⟨_, s₁, hguard, hrun⟩ := Service.run_bind_ok hrun
  obtain ⟨x, s₂, hgenerate, hfile⟩ := Service.run_bind_ok hrun
  have hs₁ := (h.run (Limiter.guard_abides filing_opens settings.sendLimit) hguard).1
  obtain ⟨hcolon, hengine⟩ := generate_ok (Service.run_lift_ok hgenerate)
  have hs₂ : Files (fun key => K key ∨ key = Keys.code medium credential x) s₂ := by
    obtain ⟨m, hm, hcodes⟩ := hs₁
    exact ⟨m, hengine.trans hm, hcodes.mono fun key => .inl⟩
  obtain ⟨hfiles, hreturned⟩ := hs₂.run (file_abides (.inr rfl)) hfile
  obtain rfl := hreturned code rfl
  exact ⟨hcolon, hfiles⟩

/-- An issue that is rejected has put no code anywhere: once the limiter has let it pass, only the cache can fail it. -/
theorem issue_rejected {limit used : Nat} (h : Files K s)
    (hrun : s.run (issue settings medium credential).run = (.returned (.error (.rateLimited limit used)), s')) :
    Files K s' := by
  rw [issue_eq, Service.run_bind] at hrun
  cases hguard : s.run ((limiter settings medium credential).guard settings.sendLimit).run with
  | mk o s₁ =>
    rw [hguard] at hrun
    cases o with
    | abandoned => cases hrun
    | returned r =>
      cases r with
      | error e =>
        cases hrun
        exact (h.run (Limiter.guard_abides filing_opens settings.sendLimit) hguard).1
      | ok _ =>
        have hfails : FailsByCache (do
            let code ← (generate settings.length : Action String)
            file settings medium credential code) :=
          (FailsByCache.lift _).bind fun _ => file_fails
        obtain ⟨cause, hcause⟩ := hfails s₁ _ (congrArg Prod.fst hrun)
        cases hcause

/-- An issue ended with a code, or it was rejected by its limiter. -/
def Settled (o : Outcome (Except ServiceError String)) : Prop :=
  (∃ code, o = .returned (.ok code)) ∨ ∃ limit used, o = .returned (.error (.rateLimited limit used))

/-- The codes after an issue that is settled are those from before, and the one that it returned. -/
theorem issue_files {o : Outcome (Except ServiceError String)} (h : Files K s) (ho : Settled o)
    (hrun : s.run (issue settings medium credential).run = (o, s')) :
    Files (fun key => K key ∨ ∃ code, o = .returned (.ok code) ∧ ':' ∉ code.toList ∧
      key = Keys.code medium credential code) s' := by
  rcases ho with ⟨code, rfl⟩ | ⟨limit, used, rfl⟩
  · obtain ⟨hcolon, hfiles⟩ := issue_ok h hrun
    exact hfiles.mono fun key hkey => hkey.imp_right fun heq => ⟨code, rfl, hcolon, heq⟩
  · exact (issue_rejected h hrun).mono fun key => .inl

/-! ## Verifying -/

theorem verify_files (h : Files K s) (code : String) :
    Files K (s.run (verify settings medium credential code).run).2 :=
  (h.run (verify_abides settings medium credential filing_opens code trivial) rfl).1

/-- A code that is good is in the engine under the key that is asked for. -/
theorem verify_true (h : Files K s)
    (hrun : (s.run (verify settings medium credential code).run).1 = .returned (.ok true)) :
    K (Keys.code medium credential code) := by
  have hpair : s.run (verify settings medium credential code).run =
      (.returned (.ok true), (s.run (verify settings medium credential code).run).2) := Prod.ext hrun rfl
  obtain ⟨used, s₁, htake, hrest⟩ := Service.run_bind_ok hpair
  cases used with
  | false => cases hrest
  | true =>
    obtain ⟨m, hm, hcodes⟩ := h
    have hanswer := (Service.run_counted_ok (Service.run_liftCache_ok htake)).1
    have hperform := (Service.callEngine_memory_ok hm hanswer).1
    unfold Memory.perform at hperform
    split at hperform
    · cases hperform
    · have hlive : (m.live? s.clocks.monotonic (Keys.code medium credential code)).isSome = true :=
        Except.ok.inj (Outcome.returned.inj hperform)
      obtain ⟨e, he⟩ := Option.isSome_iff_exists.mp hlive
      exact hcodes _ e (Keys.code_holds medium credential code) (Option.filter_eq_some_iff.mp he).1

end OneTimeCode

/-! ## Runs -/

/-- A code is issued or verified, the clocks move, expired entries are removed, or calls are made to fail. -/
def ServiceEvent.IsAboutCodes : ServiceEvent → Prop
  | call (.issueCode _ _ _) | call (.verifyCode _ _ _ _) => True
  | call _ => False
  | _ => True

/-- An issue of a run was asked for a medium and a credential, and this is what it ended with. -/
def Service.Issued (s : Service) (events : List ServiceEvent) (medium credential : String)
    (o : Outcome (Except ServiceError String)) : Prop :=
  ∃ before settings later, events = before ++ .call (.issueCode settings medium credential) :: later ∧
    ((s.after before).run (OneTimeCode.issue settings medium credential).run).1 = o

namespace OneTimeCode

variable {s : Service} {m : Memory} {K : String → Prop} {events : List ServiceEvent} {medium credential : String}
  {o : Outcome (Except ServiceError String)}

theorem issued_append (h : s.Issued events medium credential o) (more : List ServiceEvent) :
    s.Issued (events ++ more) medium credential o := by
  obtain ⟨before, settings, later, rfl, ho⟩ := h
  exact ⟨before, settings, later ++ more, by simp, ho⟩

theorem issued_last (s : Service) (events : List ServiceEvent) (settings : CodeSettings) (medium credential : String) :
    s.Issued (events ++ [.call (.issueCode settings medium credential)]) medium credential
      ((s.after events).run (issue settings medium credential).run).1 :=
  ⟨events, settings, [], rfl, rfl⟩

/-- The key is that of a code which an issue of the run returned. -/
def Returned (s : Service) (events : List ServiceEvent) (key : String) : Prop :=
  ∃ medium credential code, s.Issued events medium credential (.returned (.ok code)) ∧ ':' ∉ code.toList ∧
    key = Keys.code medium credential code

theorem returned_append {key : String} (h : Returned s events key) (more : List ServiceEvent) :
    Returned s (events ++ more) key := by
  obtain ⟨medium, credential, code, hissued, hrest⟩ := h
  exact ⟨medium, credential, code, issued_append hissued more, hrest⟩

/-- What moves the clocks, removes expired entries or plans failures puts no code anywhere. -/
theorem Files.apply {e : ServiceEvent} (h : Files K s) (he : ∀ c, e ≠ .call c) : Files K (s.apply e) := by
  obtain ⟨m, hm, hcodes⟩ := h
  have hadvance (d : Span) : Files K (s.advance d) := ⟨_, Service.engine_advance hm d, hcodes.tick⟩
  cases e with
  | call c => exact absurd rfl (he c)
  | prune => exact ⟨_, Service.engine_prune hm, hcodes.prune⟩
  | failEngine method fate => exact ⟨m, hm, hcodes⟩
  | failStore method fate => exact ⟨m, hm, hcodes⟩
  | advance d => exact hadvance d
  | shiftWall nanos => exact ⟨m, hm, hcodes⟩
  | advanceMonotonic d => exact hadvance d

/-- After a run every code in the engine is one that was returned. -/
theorem files_after (hnone : Files (fun _ => False) s) (hevents : ∀ e ∈ events, e.IsAboutCodes)
    (hsettled : ∀ medium credential o, s.Issued events medium credential o → Settled o) :
    Files (Returned s events) (s.after events) := by
  induction events using List.reverseRecOn with
  | nil => exact hnone.mono fun _ h => h.elim
  | append_singleton events e ih =>
    have hbefore : Files (Returned s (events ++ [e])) (s.after events) := by
      refine (ih (fun e' he' => hevents e' (List.mem_append_left _ he')) fun medium credential o h => ?_).mono
        fun key hkey => returned_append hkey [e]
      exact hsettled medium credential o (issued_append h [e])
    have happly : s.after (events ++ [e]) = (s.after events).apply e := List.foldl_append
    rw [happly]
    have he := hevents e (List.mem_append_right _ List.mem_cons_self)
    cases e with
    | call c =>
      cases c with
      | issueCode settings medium credential =>
        -- The code that is new was returned by the last event.
        have hlast := issued_last s events settings medium credential
        have hfiles := issue_files hbefore (hsettled medium credential _ hlast) rfl
        refine hfiles.mono fun key hkey => ?_
        rcases hkey with hkey | ⟨code, hcode, hrest⟩
        · exact hkey
        · rw [hcode] at hlast
          exact ⟨medium, credential, code, hlast, hrest⟩
      | verifyCode settings medium credential code => exact verify_files hbefore code
      | _ => exact he.elim
    | _ => exact hbefore.apply fun c => nofun

/-- A code that is good was returned before. In a run of issues and verifications over an engine in memory that holds no
code, and in which every issue ends with a code or is rejected by its limiter, a code is good only if an issue returned
one with the same key. If there is no underscore in the media and no colon in the code, that was this code, and it was
returned for this medium and this credential. -/
theorem verified_was_issued {settings : CodeSettings} {code : String} (hm : s.engine = .memory m)
    (hnone : ∀ key, Keys.Part.code.Holds key → m.entries.get? key = none)
    (hevents : ∀ e ∈ events, e.IsAboutCodes)
    (hsettled : ∀ medium credential o, s.Issued events medium credential o → Settled o)
    (hverify : ((s.after events).run (verify settings medium credential code).run).1 = .returned (.ok true)) :
    ∃ medium' credential' code', s.Issued events medium' credential' (.returned (.ok code')) ∧
      Keys.code medium' credential' code' = Keys.code medium credential code ∧
      ('_' ∉ medium'.toList → '_' ∉ medium.toList → ':' ∉ code.toList →
        medium' = medium ∧ credential' = credential ∧ code' = code) := by
  have hstart : Files (fun _ => False) s := by
    refine ⟨m, hm, fun key e hkey he => ?_⟩
    rw [hnone key hkey] at he
    cases he
  obtain ⟨medium', credential', code', hissued, hcolon, hkey⟩ :=
    verify_true (files_after hstart hevents hsettled) hverify
  exact ⟨medium', credential', code', hissued, hkey.symm,
    fun hmedium' hmedium hcode => Keys.code_inj hmedium' hmedium hcolon hcode hkey.symm⟩

/-- A service over a new engine in memory whose codes are all sevens. -/
def sampleService : Service := Service.new ⟨0, 0⟩ (.memory (Memory.start 0 none)) .empty fun _ => 7

/-- A code is sent to a number and verified a minute later: it was returned for that number. -/
theorem verified_was_issued_to_number :
    ∃ medium' credential' code',
      sampleService.Issued [.call (.issueCode {} "sms" "+886900000000"), .advance (Span.ofSeconds 60)] medium'
        credential' (.returned (.ok code')) ∧
      Keys.code medium' credential' code' = Keys.code "sms" "+886900000000" "777777" ∧
      medium' = "sms" ∧ credential' = "+886900000000" ∧ code' = "777777" := by
  have hreturned : (sampleService.run (issue {} "sms" "+886900000000").run).1 = .returned (.ok "777777") := by
    decide +kernel
  have honly : ∀ medium credential o,
      sampleService.Issued [.call (.issueCode {} "sms" "+886900000000"), .advance (Span.ofSeconds 60)] medium credential
        o → medium = "sms" ∧ o = .returned (.ok "777777") := by
    rintro medium credential o ⟨before, settings, later, heq, ho⟩
    match before, heq with
    | [], heq =>
      cases heq
      exact ⟨rfl, ho.symm.trans hreturned⟩
    | [_], heq => cases heq
    | _ :: _ :: _, heq => simp at heq
  have hverify : ((sampleService.after
      [.call (.issueCode {} "sms" "+886900000000"), .advance (Span.ofSeconds 60)]).run
        (verify {} "sms" "+886900000000" "777777").run).1 = .returned (.ok true) := by
    decide +kernel
  obtain ⟨medium, credential, code, hissued, hkey, hsame⟩ :=
    verified_was_issued (m := Memory.start 0 none) rfl (fun _ _ => rfl) (by simp [ServiceEvent.IsAboutCodes])
      (fun medium credential o h => .inl ⟨_, (honly medium credential o h).2⟩) hverify
  obtain ⟨rfl, -⟩ := honly medium credential _ hissued
  exact ⟨_, credential, code, hissued, hkey, hsame (by decide) (by decide) (by decide)⟩

/-- A code that was sent to one destination is good for another one, to which none was sent, if an underscore can stand
on either side of the separator. -/
theorem verified_elsewhere :
    (sampleService.run (issue {} "sms" "ann_lee").run).1 = .returned (.ok "777777") ∧
      ((sampleService.after [.call (.issueCode {} "sms" "ann_lee")]).run
        (verify {} "sms_ann" "lee" "777777").run).1 = .returned (.ok true) ∧
      ∀ o, ¬sampleService.Issued [.call (.issueCode {} "sms" "ann_lee")] "sms_ann" "lee" o := by
  refine ⟨by decide +kernel, by decide +kernel, ?_⟩
  rintro o ⟨before, settings, later, heq, -⟩
  match before, heq with
  | [], heq => simp at heq
  | _ :: _, heq => simp at heq

end OneTimeCode

end Gatehouse
