import Gatehouse.Proofs.Service.Transcript

/-!
# Tokens and throttling do not interfere

The operations on tokens have to do with markers and records; those on limiters and codes with attempts, codes and
random numbers. However the two are mixed in a run, and whatever ids and texts they are given, each side is answered as
if the calls of the other had not been made (`sides_independent`).
-/

namespace Gatehouse

/-- The two sides of the service that share one cache. -/
inductive Side where
  | tokens
  | throttling
deriving DecidableEq

/-- What the operations of a side have to do with. -/
def Side.scope : Side → Scope
  | tokens => ⟨Keys.Part.marker.Holds, True, False⟩
  | throttling => ⟨fun key => Keys.Part.code.Holds key ∨ Keys.Part.attempt.Holds key, False, True⟩

/-- No key, no record and no random number belongs to both sides. -/
theorem Side.apart {side other : Side} (h : other ≠ side) : side.scope.Apart other.scope := by
  have hkeys (key : String) (hmarker : Keys.Part.marker.Holds key) :
      ¬(Keys.Part.code.Holds key ∨ Keys.Part.attempt.Holds key) := by
    rintro (hcode | hattempt)
    · exact absurd (Keys.Part.eq_of_holds hmarker hcode) (by decide)
    · exact absurd (Keys.Part.eq_of_holds hmarker hattempt) (by decide)
  cases side with
  | tokens =>
    cases other with
    | tokens => exact absurd rfl h
    | throttling =>
      exact ⟨fun key hkey hmarker => hkeys key hmarker hkey, ⟨_, Keys.revokedToken_holds ""⟩, fun _ => id, nofun⟩
  | throttling =>
    cases other with
    | tokens => exact ⟨hkeys, ⟨_, .inl (Keys.code_holds "" "" "")⟩, nofun, fun _ => id⟩
    | throttling => exact absurd rfl h

/-- The side that a call belongs to. Closing the cache belongs to neither. -/
def ServiceCall.side? : ServiceCall → Option Side
  | recordAttempt _ _ _ | recordAttemptAt _ _ _ _ | countAttempts _ _ _ | guardAttempts _ _ _ _ | clearAttempts _ _ _
  | issueCode _ _ _ | verifyCode _ _ _ _ => some .throttling
  | revoke _ | revokeById _ | isRevoked _ | loadRevocations | verifyToken _ _ | saveRecord _ => some .tokens
  | closeCache => none

/-- A call of a side, or an event that is no call. -/
def ServiceEvent.concerns (side : Side) : ServiceEvent → Bool
  | call c => c.side? = some side
  | _ => true

/-- An event that plans no failure and does not close the cache. -/
def ServiceEvent.IsOrderly : ServiceEvent → Prop
  | call c => c.side?.isSome = true
  | e => e.IsFaultless

theorem ServiceEvent.IsOrderly.isFaultless {e : ServiceEvent} (h : e.IsOrderly) : e.IsFaultless := by
  cases e with
  | call c => trivial
  | _ => exact h

namespace Side

theorem throttling_opens : throttling.scope.protocol.Opens Keys.Part.attempt.Holds :=
  throttling.scope.opens fun _ => .inr

theorem throttling_scans (space : String) (ids : List String) (window : Span) :
    throttling.scope.protocol.admits (.engine (.keys (Limiter.of space ids window).attemptStem)) :=
  fun key hkey => .inr (Limiter.reaches_attempts space ids window key hkey)

theorem tokens_marks : tokens.scope.protocol.Marks (fun _ => True) fun _ => True where
  clock := trivial
  now _ _ := trivial
  record _ := trivial
  abandons := trivial
  find _ := trivial
  found _ _ _ := trivial
  list _ _ := trivial
  listed _ _ _ _ _ _ := trivial
  save _ _ := trivial
  revoked _ _ _ _ := trivial
  mark r _ _ _ _ _ := Keys.revokedToken_holds r.id

/-- A call keeps to the scope of its side. -/
theorem observes {side : Side} (c : ServiceCall) (hc : c.side? = some side) :
    Observes side.scope.protocol c.action fun _ => True := by
  cases c with
  | recordAttempt space ids window =>
    cases hc
    exact Limiter.record_observes throttling_opens
      ((Limiter.reaches_attempts space ids window).admits throttling_opens)
  | recordAttemptAt space ids window second =>
    cases hc
    exact Limiter.recordAt_observes throttling_opens
      ((Limiter.reaches_attempts space ids window).admits throttling_opens) second
  | countAttempts space ids window =>
    cases hc
    exact Observes.lift (Limiter.count_follows throttling_opens (throttling_scans space ids window))
  | guardAttempts space ids window limit =>
    cases hc
    exact Limiter.guard_observes throttling_opens (throttling_scans space ids window) limit
  | clearAttempts space ids window =>
    cases hc
    exact Limiter.clear_observes throttling_opens (throttling_scans space ids window)
      (Limiter.reaches_attempts space ids window)
  | issueCode settings medium credential =>
    cases hc
    exact OneTimeCode.issue_observes throttling_opens (.inr trivial) (throttling_scans _ _ _) (fun _ _ => trivial)
      (fun code _ => .inl (Keys.code_holds medium credential code))
      ((Limiter.reaches_attempts _ _ _).admits throttling_opens)
  | verifyCode settings medium credential code =>
    cases hc
    exact OneTimeCode.verify_observes throttling_opens (throttling_scans _ _ _)
      (.inl (Keys.code_holds medium credential code))
  | revoke r =>
    cases hc
    exact Revocation.revoke_observes tokens_marks trivial
  | revokeById id =>
    cases hc
    exact Revocation.revokeById_observes tokens_marks id
  | isRevoked id =>
    cases hc
    exact Revocation.isRevoked_observes (fun _ => trivial) (Keys.revokedToken_holds id)
  | loadRevocations =>
    cases hc
    exact Revocation.load_observes tokens_marks
  | verifyToken token allowed =>
    cases hc
    exact Authenticator.verify_observes (fun _ => trivial) trivial (Keys.revokedToken_holds token.id)
  | saveRecord r =>
    cases hc
    exact (Revocation.store_observes (c := .save r) trivial).mono fun _ _ => trivial
  | closeCache => cases hc

end Side

namespace Service

variable {s s' : Service} {events : List ServiceEvent} {side : Side}

/-- Without the calls of the other side, a run is answered on one side as it is with them. -/
theorem transcript_filter_of_alike (h : s.Alike side.scope s') (hs : s.Faultless)
    (hevents : ∀ e ∈ events, e.IsOrderly) :
    s'.transcript (events.filter fun e => e.concerns side) =
      (s.transcript events).filter fun a => a.call.side? = some side := by
  induction events generalizing s s' with
  | nil => rfl
  | cons e rest ih =>
    have hrest : ∀ e ∈ rest, e.IsOrderly := fun e he => hevents e (List.mem_cons_of_mem _ he)
    have he := hevents e List.mem_cons_self
    have hs₁ := hs.apply he.isFaultless
    cases e with
    | call c =>
      obtain ⟨other, hother⟩ := Option.isSome_iff_exists.mp he
      have hfollows := Side.observes c hother
      by_cases hside : other = side
      · subst hside
        obtain ⟨houtcome, hafter⟩ := h.run hfollows
        rw [List.filter_cons_of_pos (by simp [ServiceEvent.concerns, hother])]
        simp only [transcript]
        rw [List.filter_cons_of_pos (by simp [hother]), houtcome, h.clocks_eq]
        exact congrArg _ (ih hafter hs₁ hrest)
      · -- A call of the other side leaves the services alike.
        have hafter := h.run_apart hs (Side.apart hside) hfollows
        rw [List.filter_cons_of_neg (by simp [ServiceEvent.concerns, hother, hside])]
        simp only [transcript]
        rw [List.filter_cons_of_neg (by simp [hother, hside])]
        exact ih hafter hs₁ hrest
    | failEngine method fate => exact he.elim
    | failStore method fate => exact he.elim
    | prune => exact ih (h.apply nofun) hs₁ hrest
    | advance d => exact ih (h.apply nofun) hs₁ hrest
    | shiftWall nanos => exact ih (h.apply nofun) hs₁ hrest
    | advanceMonotonic d => exact ih (h.apply nofun) hs₁ hrest

/-- Tokens and throttling do not interfere. In every run over an open engine in memory in which no call is made to fail,
deleting all calls of one side leaves every call of the other side with the same answer: the transcript of the run
without them is that of the whole run without them. -/
theorem sides_independent {m : Memory} (h : s.Calm m) (hevents : ∀ e ∈ events, e.IsOrderly) (side : Side) :
    s.transcript (events.filter fun e => e.concerns side) =
      (s.transcript events).filter fun a => a.call.side? = some side :=
  transcript_filter_of_alike (.refl h.engine) h.faultless hevents

/-- A run in which a token is revoked whose id is part of a code's destination, while a code is sent there and used. -/
def mixedRun : List ServiceEvent :=
  [.call (.issueCode {} "revoked_sms" "7"), .call (.revoke ⟨"sms_7", .admin, "accounts:1", none, none, ⟨0, 0⟩⟩),
    .call (.clearAttempts "otp" ["sms", "7"] (Span.ofSeconds 600)), .advance (Span.ofSeconds 60), .prune,
    .call (.isRevoked "sms_7"), .call (.verifyCode {} "revoked_sms" "7" "777777")]

theorem sides_independent_over_mixed_ids :
    let s := Service.new ⟨0, 0⟩ (.memory (Memory.start 0 none)) .empty fun _ => 7
    s.transcript (mixedRun.filter fun e => e.concerns .throttling) =
        (s.transcript mixedRun).filter (fun a => a.call.side? = some .throttling) ∧
      s.transcript (mixedRun.filter fun e => e.concerns .tokens) =
        (s.transcript mixedRun).filter (fun a => a.call.side? = some .tokens) ∧
      ((s.transcript mixedRun).filter fun a => a.call.side? = some .tokens).length = 2 := by
  have horderly : ∀ e ∈ mixedRun, e.IsOrderly := by
    simp [mixedRun, ServiceEvent.IsOrderly, ServiceEvent.IsFaultless, ServiceCall.side?]
  have hcalm : (Service.new ⟨0, 0⟩ (.memory (Memory.start 0 none)) .empty fun _ => 7).Calm (Memory.start 0 none) :=
    ⟨rfl, rfl, rfl, rfl⟩
  exact ⟨sides_independent hcalm horderly .throttling, sides_independent hcalm horderly .tokens, by decide +kernel⟩

end Service

end Gatehouse
