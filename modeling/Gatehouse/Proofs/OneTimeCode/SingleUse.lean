import Gatehouse.Proofs.Service.Interleaving

/-!
# Codes are used once

Any number of issues and verifications are at work together, and their requests interleave in any order. A verification
is told whether its code is good by the one request that takes the code: it is, if an issue has put it, its lifetime is
not over, and nobody has taken it since (`verified_once`). A verification of a code that is not good leaves nothing
behind that anything could tell.
-/

namespace Gatehouse

/-! ## Callers -/

/-- A call about codes. -/
inductive CodeCall where
  | issue (settings : CodeSettings) (medium credential : String)
  | verify (settings : CodeSettings) (medium credential code : String)
deriving DecidableEq

namespace CodeCall

/-- What a call ends with when it succeeds. -/
abbrev Reply : CodeCall → Type
  | issue _ _ _ => String
  | verify _ _ _ _ => Bool

/-- What the service does for a call. -/
def action : (c : CodeCall) → ServiceAction c.Reply
  | issue settings medium credential => OneTimeCode.issue settings medium credential
  | verify settings medium credential code => OneTimeCode.verify settings medium credential code

/-- For how long the codes that a call puts can be used. -/
def lifetime? : CodeCall → Option Span
  | issue settings _ _ => some settings.lifetime
  | verify _ _ _ _ => none

/-- The requests that a call may make: an issue puts codes for their lifetime, and a code is never removed but by
taking it. -/
def asks (c : CodeCall) : Request → Prop
  | .engine (.put key _ lifetime) =>
    Keys.Part.code.Holds key → ∃ d, c.lifetime? = some d ∧ lifetime = Cache.lifetime (some d)
  | .engine (.delete key) => ¬Keys.Part.code.Holds key
  | .engine .flush | .engine .close => False
  | _ => True

variable {c : CodeCall}

theorem opens_attempts : (Protocol.asking c.asks).Opens Keys.Part.attempt.Holds where
  point call key hkey hattempt := by
    have hcode : ¬Keys.Part.code.Holds key := fun hcode =>
      absurd (Keys.Part.eq_of_holds hattempt hcode) (by decide)
    cases call <;> cases hkey <;> first | exact hcode | exact fun h => absurd h hcode | trivial
  listed _ _ hl := hl
  clock := trivial
  record _ := trivial

theorem follows_asks (c : CodeCall) : c.action.run.Follows (.asking c.asks) fun _ => True := by
  cases c with
  | issue settings medium credential =>
    have hissue : Observes (.asking (issue settings medium credential).asks)
        (OneTimeCode.issue settings medium credential) fun _ => True :=
      OneTimeCode.issue_observes opens_attempts (.inr trivial) trivial (fun _ _ => trivial)
        (fun _ _ _ => ⟨settings.lifetime, rfl, rfl⟩) ((Limiter.reaches_attempts _ _ _).admits opens_attempts)
    exact Action.Follows.mono hissue fun _ _ => trivial
  | verify settings medium credential code =>
    have hverify : Observes (.asking (verify settings medium credential code).asks)
        (OneTimeCode.verify settings medium credential code) fun _ => True :=
      OneTimeCode.verify_observes opens_attempts trivial trivial
    exact Action.Follows.mono hverify fun _ _ => trivial

variable {e : Exchange} {key : String}

theorem lifetime_of_written {lifetime : Option Span} (hasks : c.asks e.request)
    (hwritten : e.written? = some (key, lifetime)) (hkey : Keys.Part.code.Holds key) :
    ∃ d, c.lifetime? = some d ∧ lifetime = Cache.lifetime (some d) := by
  obtain ⟨value, hrequest⟩ := Exchange.request_of_written hwritten
  rw [hrequest] at hasks
  exact hasks hkey

/-- A code is removed by taking it, and in no other way. -/
theorem removes_iff (hasks : c.asks e.request) (hkey : Keys.Part.code.Holds key) :
    e.Removes key ↔ e.taken? = some key := by
  obtain ⟨r, x⟩ := e
  cases r with
  | engine call =>
    cases call with
    | take key' =>
      match x with
      | .error _ => exact ⟨False.elim, nofun⟩
      | .ok false => exact ⟨fun h => (nomatch h.1), nofun⟩
      | .ok true => exact ⟨fun h => congrArg some h.2, fun h => ⟨rfl, Option.some.inj h⟩⟩
    | delete key' =>
      match x with
      | .error _ => exact ⟨False.elim, nofun⟩
      | .ok () => exact ⟨fun heq => absurd (heq ▸ hkey) hasks, nofun⟩
    | put key' value lifetime =>
      match x, lifetime with
      | .error _, none | .error _, some _ | .ok (), none => exact ⟨False.elim, nofun⟩
      | .ok (), some d =>
        refine ⟨?_, nofun⟩
        rintro ⟨hd, rfl⟩
        obtain ⟨d', -, hlifetime⟩ := hasks hkey
        exact absurd hd (Cache.nanos_ne_zero_of_lifetime hlifetime.symm)
    | flush => exact hasks.elim
    | close => exact hasks.elim
    | _ => exact ⟨False.elim, nofun⟩
  | _ => exact ⟨False.elim, nofun⟩

end CodeCall

/-- One of the callers at work together. -/
structure CodeCaller where
  number : Nat
  call : CodeCall
deriving DecidableEq

/-- What the callers did to codes: an issue puts a code for its lifetime, and a code is gone when it has been taken. -/
def Occurrence.codes : Chronicle (Occurrence CodeCaller) where
  time o := o.clocks.monotonic
  writes o key d := o.caller.call.lifetime? = some d ∧ ∃ lifetime, o.exchange.written? = some (key, lifetime)
  removes o key := o.exchange.taken? = some key

/-- For codes, what the callers did is what was done to the keys of the engine. -/
theorem Occurrence.keeps_codes {past : List (Occurrence CodeCaller)} {key : String} {now : Nat}
    (hpast : ∀ o ∈ past, o.caller.call.asks o.exchange.request) (hkey : Keys.Part.code.Holds key) :
    Occurrence.entries.Keeps now key past ↔ Occurrence.codes.Keeps now key past := by
  refine Chronicle.keeps_congr rfl (fun o ho d => ?_) fun o ho => ?_
  · have hasks := hpast o ho
    constructor
    · intro hwritten
      obtain ⟨d', hd', hlifetime⟩ := CodeCall.lifetime_of_written hasks hwritten hkey
      obtain rfl := Cache.lifetime_inj hlifetime
      exact ⟨hd', _, hwritten⟩
    · rintro ⟨hd, lifetime, hwritten⟩
      obtain ⟨d', hd', rfl⟩ := CodeCall.lifetime_of_written hasks hwritten hkey
      obtain rfl := Option.some.inj (hd.symm.trans hd')
      exact hwritten
  · exact CodeCall.removes_iff (hpast o ho) hkey

namespace OneTimeCode

variable {settings : CodeSettings} {medium credential code : String}

/-- What a verification does once it has been told whether there was such a code. -/
def settle (settings : CodeSettings) (medium credential : String) (taken : Bool) : ServiceAction Bool :=
  if taken then do
    (limiter settings medium credential).clear
    return true
  else return false

/-- What is left of a verification once its code has been taken, or found missing. -/
def afterTake (settings : CodeSettings) (medium credential : String) (r : Except CacheError Bool) :
    Action (Except ServiceError Bool) :=
  .ask (.record (.operation .take (.ofResult r))) fun _ =>
    match r with
    | .ok taken => (settle settings medium credential taken).run
    | .error e => .done (.error (.cache e))

theorem verify_eq (settings : CodeSettings) (medium credential code : String) :
    (verify settings medium credential code).run =
      .ask (.engine (.take (Keys.code medium credential code))) (afterTake settings medium credential) := by
  refine congrArg (Action.ask _) (funext fun r => ?_)
  cases r <;> rfl

/-! ## After the take -/

/-- Requests that are always answered, and those of the engine with success. -/
def answering : Protocol where
  admits
    | .engine (.keys _) | .engine (.delete _) | .record _ => True
    | _ => False
  tells
    | .engine _, x => ∃ a, x = .ok a
    | _, _ => True
  abandons := False

/-- A calm service answers these requests. -/
theorem answers_of_calm {s : Service} {m : Memory} (h : s.Calm m) (r : Request) (hr : answering.admits r) :
    ∃ x s', s.answer r = (.returned x, s') ∧ (∃ m', s'.Calm m') ∧ answering.tells r x := by
  cases r with
  | engine c =>
    cases c with
    | keys stem =>
      obtain ⟨hanswer, -, hcalm⟩ := h.answer_engine (c := .keys stem) nofun
      exact ⟨_, _, Prod.ext hanswer rfl, ⟨_, hcalm⟩, _, rfl⟩
    | delete key =>
      obtain ⟨hanswer, -, hcalm⟩ := h.answer_engine (c := .delete key) nofun
      exact ⟨_, _, Prod.ext hanswer rfl, ⟨_, hcalm⟩, _, rfl⟩
    | _ => exact hr.elim
  | record e => exact ⟨(), _, rfl, ⟨m, h.engine, h.isOpen, h.engineFaults, h.storeFaults⟩, trivial⟩
  | _ => exact hr.elim

/-- A counted call that is always answered, within the service. -/
theorem counted_answers {op : Operation} {c : EngineCall} (hc : answering.admits (.engine c)) {α : Type}
    {f : c.Reply → ServiceAction α} {Q : Except ServiceError α → Prop}
    (hf : ∀ a, (f a).run.Follows answering Q) :
    (CacheAction.lift (Cache.counted op c) >>= f).run.Follows answering Q := by
  refine ⟨hc, fun x hx => ⟨trivial, fun _ _ => ?_⟩⟩
  obtain ⟨a, rfl⟩ := hx
  exact hf a

theorem deletes_answer (keys : List String) :
    (keys.forM fun key => CacheAction.lift (Cache.delete key) : ServiceAction PUnit).run.Follows answering
      fun r => r = .ok () := by
  induction keys with
  | nil => rfl
  | cons key keys ih => exact counted_answers (c := .delete key) trivial fun _ => ih

/-- A verification that has been told ends with what it was told, once the attempts have been cleared. -/
theorem settle_answers (settings : CodeSettings) (medium credential : String) (taken : Bool) :
    (settle settings medium credential taken).run.Follows answering fun r => r = .ok taken := by
  cases taken with
  | false => rfl
  | true =>
    have hclear : (limiter settings medium credential).clear.run.Follows answering fun r => r = .ok () :=
      counted_answers (c := .keys _) trivial fun keys => deletes_answer keys
    refine Action.Follows.bind hclear ?_
    rintro _ rfl
    rfl

/-! ## Single use -/

variable {s : Service} {m : Memory} {y : Interleaving fun i : CodeCaller => Except ServiceError i.call.Reply}
  {number : Nat}

/-- The codes in the engine are told by what the callers have done, and every caller keeps to its requests. -/
abbrev Sound (y : Interleaving fun i : CodeCaller => Except ServiceError i.call.Reply) : Prop :=
  y.Sound Keys.Part.code.Holds fun i => i.call.asks

/-- What a verification is told when it takes its code, and what it has to do then. -/
theorem take_step (h : Sound y)
    (hrest : y.rest ⟨number, .verify settings medium credential code⟩ =
      (verify settings medium credential code).run) :
    ∃ taken : Bool,
      (taken = true ↔
        Occurrence.codes.Keeps y.service.clocks.monotonic (Keys.code medium credential code) y.past) ∧
      (y.apply (.step ⟨number, .verify settings medium credential code⟩)).rest
          ⟨number, .verify settings medium credential code⟩ = afterTake settings medium credential (.ok taken) ∧
      (taken = false →
        (y.apply (.step ⟨number, .verify settings medium credential code⟩)).service.Alike .whole y.service) := by
  obtain ⟨m, hcalm, hmirrors⟩ := h.recorded
  have hkey := Keys.code_holds medium credential code
  rw [verify_eq] at hrest
  obtain ⟨hanswer, hclocks, hafter⟩ := hcalm.answer_engine (c := .take (Keys.code medium credential code)) nofun
  refine ⟨(m.live? y.service.clocks.monotonic (Keys.code medium credential code)).isSome, ?_, ?_, fun hfalse => ?_⟩
  · rw [hmirrors _ _ hkey (Nat.le_refl _), Occurrence.keeps_codes h.admitted hkey]
  · rw [Interleaving.apply_step_of_answered hrest hanswer]
    exact Function.update_self _ _ _
  · rw [Interleaving.apply_step_of_answered hrest hanswer]
    change (y.service.callEngine (.take (Keys.code medium credential code))).2.Alike .whole y.service
    rw [hcalm.callEngine_eq]
    have hexpired := Memory.Alike.erase_of_expired (K := fun _ => True)
      (Option.not_isSome_iff_eq_none.mp (Bool.not_eq_true _ ▸ hfalse))
    exact ⟨rfl, ⟨_, m, rfl, hcalm.engine, hexpired⟩, rfl, rfl, fun _ => rfl, fun _ => rfl⟩

/-- Callers with calls about codes, none of which has made a request yet. -/
def callers (s : Service) : Interleaving fun i : CodeCaller => Except ServiceError i.call.Reply :=
  .start s fun i => i.call.action.run

/-- A caller that verifies a code. -/
abbrev verifier (number : Nat) (settings : CodeSettings) (medium credential code : String) : CodeCaller :=
  ⟨number, .verify settings medium credential code⟩

theorem sound_callers (h : s.Calm m) (hnone : ∀ key, Keys.Part.code.Holds key → m.entries.get? key = none)
    {turns : List (Turn CodeCaller)} (hturns : ∀ t ∈ turns, t.IsOrderly) : Sound ((callers s).after turns) :=
  Interleaving.Sound.after (fun _ => id) (.start h hnone fun i => i.call.follows_asks) hturns

/-- Once a verification has been told whether its code is good, it ends with that answer, whatever the schedule. -/
theorem ends_as_told {taken : Bool} (h : Sound y)
    (hrest : (y.rest (verifier number settings medium credential code)).Follows answering fun r => r = .ok taken)
    {later : List (Turn CodeCaller)} (hlater : ∀ t ∈ later, t.IsOrderly) :
    ((y.after later).service.run ((y.after later).rest (verifier number settings medium credential code))).1 =
      .returned (.ok taken) := by
  have hafter : Sound (y.after later) ∧
      ((y.after later).rest (verifier number settings medium credential code)).Follows answering
        fun r => r = .ok taken := by
    refine Interleaving.after_keeps
      (I := fun y => Sound y ∧ (y.rest (verifier number settings medium credential code)).Follows answering
        fun r => r = .ok taken) (fun y t hy ht => ?_) hlater ⟨h, hrest⟩
    refine ⟨hy.1.apply (fun _ => id) t ht, ?_⟩
    obtain ⟨m, hcalm, -⟩ := hy.1.recorded
    refine Interleaving.follows_apply hy.2 (fun r x hr hx => ?_) (fun r hr hx => ?_) t
    · obtain ⟨x', s', heq, -, htells⟩ := answers_of_calm hcalm r hr
      rw [heq] at hx
      exact Outcome.returned.inj hx ▸ htells
    · obtain ⟨x', s', heq, -⟩ := answers_of_calm hcalm r hr
      rw [heq] at hx
      cases hx
  obtain ⟨m, hcalm, -⟩ := hafter.1.recorded
  obtain ⟨r, hrun, rfl⟩ := Action.run_follows_to_end (I := fun s : Service => ∃ m, s.Calm m) id
    (fun r s ⟨m, hm⟩ hr => answers_of_calm hm r hr) hafter.2 ⟨m, hcalm⟩
  exact hrun

/-- Codes are used once. Any number of issues and verifications work together over an open engine in memory that holds
no codes, their requests interleaved in any order, with the clocks moving and the engine swept in between. When a
verification takes its code, it is told whether it is good: it is, exactly if an issue has put it, its lifetime is not
over (one of zero never is), and it has been neither put again nor taken since. The verification ends with that answer
whatever comes then. If it is not good, then without the turns of this verification all the others would have the same
to do at any later time, and every action would be answered the same. -/
theorem verified_once (h : s.Calm m) (hnone : ∀ key, Keys.Part.code.Holds key → m.entries.get? key = none)
    {before : List (Turn CodeCaller)} (hbefore : ∀ t ∈ before, t.IsOrderly)
    (hfirst : ∀ t ∈ before, t.isOf (verifier number settings medium credential code) = false) :
    ∃ good : Bool,
      (good = true ↔
        Occurrence.codes.Keeps ((callers s).after before).service.clocks.monotonic
          (Keys.code medium credential code) ((callers s).after before).past) ∧
      ∀ later : List (Turn CodeCaller), (∀ t ∈ later, t.IsOrderly) →
        let y := (callers s).after (before ++ .step (verifier number settings medium credential code) :: later)
        (y.service.run (y.rest (verifier number settings medium credential code))).1 = .returned (.ok good) ∧
          (good = false →
            let y' := (callers s).after
              (before ++ later.filter fun t => !t.isOf (verifier number settings medium credential code))
            (∀ i, i ≠ verifier number settings medium credential code → y'.rest i = y.rest i) ∧
              ∀ (α : Type) (x : Action α), (y'.service.run x).1 = (y.service.run x).1) := by
  have hsound := sound_callers h hnone hbefore
  have hrest : ((callers s).after before).rest (verifier number settings medium credential code) =
      (verify settings medium credential code).run := Interleaving.rest_after_of_not_isOf hfirst
  obtain ⟨taken, hkeeps, htold, halike⟩ := take_step hsound hrest
  refine ⟨taken, hkeeps, fun later hlater => ?_⟩
  have happend (turns : List (Turn CodeCaller)) :
      (callers s).after (before ++ turns) = ((callers s).after before).after turns := List.foldl_append
  rw [happend, happend]
  generalize (callers s).after before = y at hsound htold halike ⊢
  have hsound' : Sound (y.apply (.step (verifier number settings medium credential code))) :=
    hsound.apply (fun _ => id) _ trivial
  refine ⟨ends_as_told hsound' (htold ▸ ⟨trivial, fun _ _ => settle_answers settings medium credential taken⟩) hlater,
    fun hfalse => ?_⟩
  obtain ⟨m', hcalm', -⟩ := hsound'.recorded
  obtain ⟨hsame, hothers⟩ := Interleaving.after_without (y.apply (.step _)) y (halike hfalse)
    hcalm'.faultless (htold ▸ hfalse ▸ ⟨trivial, fun _ _ => trivial⟩)
    (fun j hj => (Interleaving.rest_apply_of_ne hj).symm) hlater
  refine ⟨hothers, fun α x => ?_⟩
  exact (hsame.run (Scope.follows_whole x)).1

/-- A code is issued, and a minute later two callers verify it. -/
def racing : List (Turn CodeCaller) :=
  List.replicate 8 (.step ⟨0, .issue {} "sms" "ann"⟩) ++ [.other (.advance (Span.ofSeconds 60))]

/-- The code is good for the first of the two callers that takes it, and not for the second. -/
theorem verified_once_of_two :
    let s := Service.new ⟨0, 0⟩ (.memory (Memory.start 0 none)) .empty fun _ => 7
    let key := Keys.code "sms" "ann" "777777"
    let taken := racing ++ [.step (verifier 1 {} "sms" "ann" "777777")]
    Occurrence.codes.Keeps ((callers s).after racing).service.clocks.monotonic key ((callers s).after racing).past ∧
      ¬Occurrence.codes.Keeps ((callers s).after taken).service.clocks.monotonic key
        ((callers s).after taken).past := by
  intro s key taken
  have horderly : ∀ t ∈ racing, t.IsOrderly := by
    simp [racing, Turn.IsOrderly, ServiceEvent.IsFaultless]
  have hcalm : s.Calm (Memory.start 0 none) := ⟨rfl, rfl, rfl, rfl⟩
  have hnone : ∀ key, Keys.Part.code.Holds key → (Memory.start 0 none).entries.get? key = none := fun _ _ => rfl
  have hracing : ∀ t ∈ racing, t.isOf (verifier 1 {} "sms" "ann" "777777") = false := by
    simp [racing, Turn.isOf]
  have htaken : ∀ t ∈ taken, t.isOf (verifier 2 {} "sms" "ann" "777777") = false := by
    simp [taken, racing, Turn.isOf]
  obtain ⟨good, hkeeps, hgood⟩ := verified_once hcalm hnone horderly hracing
  obtain ⟨good', hkeeps', hgood'⟩ := verified_once hcalm hnone
    (by simp [taken, racing, Turn.IsOrderly, ServiceEvent.IsFaultless]) htaken
  have hfirst : (Outcome.returned (.ok good) : Outcome (Except ServiceError Bool)) = .returned (.ok true) :=
    (hgood [] (List.forall_mem_nil _)).1.symm.trans (by decide +kernel)
  have hsecond : (Outcome.returned (.ok good') : Outcome (Except ServiceError Bool)) = .returned (.ok false) :=
    (hgood' [] (List.forall_mem_nil _)).1.symm.trans (by decide +kernel)
  cases hfirst
  cases hsecond
  exact ⟨hkeeps.mp rfl, fun h => Bool.false_ne_true (hkeeps'.mpr h)⟩

end OneTimeCode

end Gatehouse
