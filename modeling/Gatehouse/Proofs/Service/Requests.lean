import Gatehouse.Authenticator
import Gatehouse.OneTimeCode
import Gatehouse.Proofs.Action
import Gatehouse.Proofs.Keys

/-!
# The requests of the operations

Which requests the operations on limiters, codes and tokens make, said for any protocol that admits them. A limiter
scans the keys under its text, writes attempts there and deletes what it was told of; the keys of codes are put and
taken; markers are put and looked for.
-/

namespace Gatehouse

/-- The key that a call is about, if it is about one. -/
def EngineCall.key? : EngineCall → Option String
  | .has key | .fetch key | .put key _ _ | .delete key | .take key | .remaining key => some key
  | .keys _ | .entries _ | .flush | .close => none

/-- The protocol of the requests that satisfy a condition. A scan is reckoned to list only keys under its text. -/
def Protocol.asking (A : Request → Prop) : Protocol where
  admits := A
  tells
    | .engine c, x => Discipline.told c x
    | _, _ => True
  abandons := True

/-- A protocol under which any call may be made on the keys that satisfy a condition, and scans tell of nothing but
keys under their texts. -/
structure Protocol.Opens (P : Protocol) (K : String → Prop) : Prop where
  point : ∀ (c : EngineCall) (key : String), c.key? = some key → K key → P.admits (.engine c)
  listed : ∀ (stem : String) (l : List String), P.tells (.engine (.keys stem)) (.ok l) →
    ∀ key ∈ l, startsWith stem key = true
  clock : P.admits .clock
  record : ∀ event, P.admits (.record event)

variable {P : Protocol}

/-! ## The typed cache -/

namespace Cache

theorem uncounted_observes {c : EngineCall} (h : P.admits (.engine c)) :
    Observes P (uncounted c) fun a => P.tells (.engine c) (.ok a) := by
  refine (Action.follows_request (r := .engine c) h).mono ?_
  intro r hr a ha
  subst ha
  exact hr

theorem counted_observes {op : Operation} {c : EngineCall} (hrecord : ∀ event, P.admits (.record event))
    (h : P.admits (.engine c)) : Observes P (counted op c) fun a => P.tells (.engine c) (.ok a) := by
  refine Action.Follows.bind (Action.follows_request (r := .engine c) h) ?_
  intro r hr
  refine Action.Follows.bind (Action.follows_request (r := .record _) (hrecord _)) ?_
  intro _ _ a ha
  subst ha
  exact hr

theorem put_observes {α : Type} [Json.Encode α] {key : String} {value : α} {expiration : Option Span}
    (hrecord : ∀ event, P.admits (.record event))
    (h : ∀ b, Json.Encode.encode value = .ok b → P.admits (.engine (.put key b (lifetime expiration)))) :
    Observes P (put key value expiration) fun _ => True := by
  unfold put
  split
  · rename_i b hb
    exact (counted_observes hrecord (h b hb)).mono fun _ _ => trivial
  · exact Observes.throw _

end Cache

/-! ## Limiters -/

namespace Limiter

variable {l : Limiter} {K : String → Prop}

theorem attempts_observes (h : P.Opens K) (hscan : P.admits (.engine (.keys l.attemptStem))) :
    Observes P l.attempts fun keys => ∀ key ∈ keys, startsWith l.attemptStem key = true :=
  (Cache.counted_observes h.record hscan).mono fun _ hkeys => h.listed _ _ hkeys

theorem count_follows (h : P.Opens K) (hscan : P.admits (.engine (.keys l.attemptStem))) :
    l.count.Follows P fun _ => True := by
  refine Action.Follows.bind (attempts_observes h hscan) ?_
  intro r _
  cases r <;> exact trivial

theorem guard_observes (h : P.Opens K) (hscan : P.admits (.engine (.keys l.attemptStem))) (limit : Nat) :
    Observes P (l.guard limit) fun _ => True := by
  refine Action.Follows.bind (count_follows h hscan) ?_
  intro used _
  split
  · exact Action.Follows.bind (Action.follows_request (r := .record _) (h.record _)) fun _ _ _ hb => nomatch hb
  · exact fun _ _ => trivial

/-- All keys under the text of a limiter's attempts satisfy a condition. -/
def Reaches (l : Limiter) (K : String → Prop) : Prop := ∀ key, startsWith l.attemptStem key = true → K key

theorem reaches_attempts (space : String) (ids : List String) (window : Span) :
    (of space ids window).Reaches Keys.Part.attempt.Holds :=
  fun _ hkey => startsWith_trans (startsWith_append_right (Keys.limiterStem_holds space ids) ":") hkey

/-- The attempts of a limiter may be recorded if its keys may be written. -/
theorem Reaches.admits (hl : l.Reaches K) (h : P.Opens K) (second : Int) (b : Bytes) :
    P.admits (.engine (.put (Keys.attempt l.stem second) b (Cache.lifetime (some l.window)))) :=
  h.point _ _ rfl (hl _ (startsWith_append _ _))

theorem recordAt_observes (h : P.Opens K)
    (hput : ∀ second b, P.admits (.engine (.put (Keys.attempt l.stem second) b (Cache.lifetime (some l.window)))))
    (second : Int64) : Observes P (l.recordAt second) fun _ => True :=
  Observes.liftCache (Cache.put_observes h.record fun b _ => hput _ b)

theorem record_observes (h : P.Opens K)
    (hput : ∀ second b, P.admits (.engine (.put (Keys.attempt l.stem second) b (Cache.lifetime (some l.window))))) :
    Observes P l.record fun _ => True :=
  (Observes.lift (Action.follows_request (r := .clock) h.clock)).bind fun _ _ => recordAt_observes h hput _

/-- A limiter deletes nothing but what it was told of. -/
theorem clear_observes_of_listed (hrecord : ∀ event, P.admits (.record event))
    (hscan : P.admits (.engine (.keys l.attemptStem)))
    (hdelete : ∀ keys, P.tells (.engine (.keys l.attemptStem)) (.ok keys) → ∀ key ∈ keys,
      P.admits (.engine (.delete key))) : Observes P l.clear fun _ => True := by
  refine (Observes.liftCache (Cache.counted_observes hrecord hscan)).bind fun keys hkeys => Observes.forM ?_
  intro key hkey
  exact Observes.liftCache ((Cache.counted_observes hrecord (hdelete keys hkeys key hkey)).mono fun _ _ => trivial)

theorem clear_observes (h : P.Opens K) (hscan : P.admits (.engine (.keys l.attemptStem))) (hl : l.Reaches K) :
    Observes P l.clear fun _ => True :=
  clear_observes_of_listed h.record hscan fun _ hkeys key hkey =>
    h.point _ key rfl (hl key (h.listed _ _ hkeys key hkey))

end Limiter

/-! ## Codes -/

namespace OneTimeCode

variable {settings : CodeSettings} {medium credential : String}

theorem issue_observes {K : String → Prop} (h : P.Opens K) (hlength : settings.length ≤ maxLength ∨ P.abandons)
    (hscan : P.admits (.engine (.keys (limiter settings medium credential).attemptStem)))
    (hdraw : ∀ limit count, P.admits (.draw limit count))
    (hput : ∀ code b, P.admits (.engine (.put (Keys.code medium credential code) b
      (Cache.lifetime (some settings.lifetime)))))
    (hrecord : ∀ second b, P.admits (.engine (.put
      (Keys.attempt (limiter settings medium credential).stem second) b
      (Cache.lifetime (some settings.sendWindow))))) :
    Observes P (issue settings medium credential) fun _ => True := by
  refine (Limiter.guard_observes h hscan _).bind ?_
  intro _ _
  have hgenerate : (generate settings.length).Follows P fun _ => True := by
    unfold generate
    split
    · exact Action.Follows.bind (Action.follows_request (hdraw _ _)) fun _ _ => trivial
    · rename_i hlong
      exact hlength.resolve_left hlong
  refine (Observes.lift hgenerate).bind ?_
  intro code _
  refine (Observes.liftCache (Cache.put_observes h.record fun b _ => hput code b)).bind ?_
  intro _ _
  exact (Limiter.record_observes h hrecord).bind fun _ _ => Observes.pure trivial

theorem verify_observes (h : P.Opens Keys.Part.attempt.Holds)
    (hscan : P.admits (.engine (.keys (limiter settings medium credential).attemptStem))) {code : String}
    (htake : P.admits (.engine (.take (Keys.code medium credential code)))) :
    Observes P (verify settings medium credential code) fun _ => True := by
  refine (Observes.liftCache (Cache.counted_observes h.record htake)).bind ?_
  intro used _
  cases used
  · exact Observes.pure trivial
  · exact (Limiter.clear_observes h hscan (Limiter.reaches_attempts _ _ _)).bind fun _ _ => Observes.pure trivial

end OneTimeCode

/-! ## Tokens -/

/-- A protocol under which records are revoked: it tells times and records that satisfy conditions, a record that is not
revoked satisfies its condition still when it is, and the marker of one may be put with the lifetime that its record
says. -/
structure Protocol.Marks (P : Protocol) (N : Instant → Prop) (R : TokenRecord → Prop) : Prop where
  clock : P.admits .clock
  now : ∀ t, P.tells .clock t → N t
  record : ∀ event, P.admits (.record event)
  abandons : P.abandons
  find : ∀ id, P.admits (.store (.find id))
  found : ∀ id r, P.tells (.store (.find id)) (.ok (some r)) → R r
  list : ∀ kind now, P.admits (.store (.revoked kind now))
  listed : ∀ kind now l, P.tells (.store (.revoked kind now)) (.ok l) → ∀ r ∈ l, R r
  save : ∀ r, R r → P.admits (.store (.save r))
  revoked : ∀ (r : TokenRecord) (t : Instant), r.isRevoked = false → R r → R { r with revokedAt := some t }
  mark : ∀ (r : TokenRecord) (now : Instant) (lifetime : Option Span), N now → R r →
    Revocation.markerLifetime r.expiresAt now = .returned lifetime →
      P.admits (.engine (.put (Keys.revokedToken r.id) (Json.encode true) (Cache.lifetime lifetime)))

namespace Revocation

variable {N : Instant → Prop} {R : TokenRecord → Prop} {now : Instant} {r : TokenRecord}

theorem store_observes {c : StoreCall} (h : P.admits (.store c)) :
    Observes P (store c) fun a => P.tells (.store c) (.ok a) := by
  refine (Action.follows_request (r := .store c) h).mono ?_
  intro r hr a ha
  subst ha
  exact hr

theorem mark_observes (h : P.Marks N R) (hr : R r) (hnow : N now) : Observes P (mark r now) fun _ => True := by
  refine (Observes.ofOutcome h.abandons fun a ha => ha).bind ?_
  intro lifetime hlife
  refine Observes.liftCache (Cache.put_observes h.record fun b hb => ?_)
  obtain rfl : Json.encode true = b := Except.ok.inj hb
  exact h.mark r now lifetime hnow hr hlife

theorem revoke_observes (h : P.Marks N R) (hr : R r) : Observes P (revoke r) fun _ => True := by
  refine (Observes.lift (Action.follows_request (r := .clock) h.clock)).bind ?_
  intro now hnow
  have hrec : R (if r.isRevoked then r else { r with revokedAt := some now }) := by
    split
    · exact hr
    · rename_i hrev
      exact h.revoked r _ (Bool.not_eq_true _ ▸ hrev) hr
  have hrest : Observes P (do
      mark (if r.isRevoked then r else { r with revokedAt := some now }) now
      Action.record (.revocation r.kind)
      return if r.isRevoked then r else { r with revokedAt := some now }) fun _ => True := by
    refine (mark_observes h hrec (h.now _ hnow)).bind ?_
    intro _ _
    exact (Observes.lift (Action.follows_request (r := .record _) (h.record _))).bind fun _ _ => Observes.pure trivial
  cases hrev : r.isRevoked
  · rw [hrev] at hrec hrest
    exact (store_observes (c := .save { r with revokedAt := some now }) (h.save _ hrec)).bind fun _ _ => hrest
  · rw [hrev] at hrest
    exact hrest

theorem revokeById_observes (h : P.Marks N R) (id : String) : Observes P (revokeById id) fun _ => True := by
  refine (store_observes (c := .find id) (h.find id)).bind ?_
  intro found hfound
  cases found with
  | none => exact Observes.throw _
  | some r => exact revoke_observes h (h.found id r hfound)

theorem load_observes (h : P.Marks N R) : Observes P load fun _ => True := by
  refine (Observes.lift (Action.follows_request (r := .clock) h.clock)).bind ?_
  intro now hnow
  have hrestore (kind : TokenKind) : Observes P (restore now kind) fun _ => True := by
    refine (store_observes (c := .revoked kind now) (h.list kind now)).bind ?_
    intro records hrecords
    refine (Observes.forM fun r hr => mark_observes h (h.listed kind now _ hrecords r hr) (h.now _ hnow)).bind ?_
    intro _ _
    exact Observes.pure trivial
  refine (Observes.mapM fun kind _ => hrestore kind).bind ?_
  intro counts _
  exact (Observes.lift (Action.follows_request (r := .record _) (h.record _))).bind fun _ _ => Observes.pure trivial

theorem isRevoked_observes {id : String} (hrecord : ∀ event, P.admits (.record event))
    (h : P.admits (.engine (.has (Keys.revokedToken id)))) : Observes P (isRevoked id) fun _ => True :=
  (Observes.liftCache (Cache.counted_observes hrecord h)).mono fun _ _ => trivial

end Revocation

namespace Authenticator

variable {t : AccessToken} {allowed : List AccountType}

/-- What a verification does once it knows that the token has not expired. -/
def accept (t : AccessToken) (allowed : List AccountType) : ServiceAction AccountType := do
  if ← Revocation.isRevoked t.id then throw .tokenRevoked
  match allowed? t allowed with
  | some a => return a
  | none => throw .wrongAccountType

theorem verify_of_unexpiring (h : t.expiresAt.isSome = false) : verify t allowed = accept t allowed := by
  unfold verify
  rw [h]
  rfl

theorem verify_of_expiring (h : t.expiresAt.isSome = true) :
    verify t allowed = (do
      let now ← (Action.clock : Action Instant)
      if hasExpired t now then throw .tokenExpired else accept t allowed) := by
  unfold verify
  rw [h]
  rfl

theorem accept_observes (hrecord : ∀ event, P.admits (.record event))
    (h : P.admits (.engine (.has (Keys.revokedToken t.id)))) : Observes P (accept t allowed) fun _ => True := by
  refine (Revocation.isRevoked_observes hrecord h).bind ?_
  intro revoked _
  cases revoked with
  | true => exact Observes.throw _
  | false =>
    rw [if_neg Bool.false_ne_true]
    cases allowed? t allowed with
    | some a => exact Observes.pure trivial
    | none => exact Observes.throw _

theorem verify_observes (hrecord : ∀ event, P.admits (.record event)) (hclock : P.admits .clock)
    (h : P.admits (.engine (.has (Keys.revokedToken t.id)))) : Observes P (verify t allowed) fun _ => True := by
  cases hexp : t.expiresAt.isSome
  · rw [verify_of_unexpiring hexp]
    exact accept_observes hrecord h
  · rw [verify_of_expiring hexp]
    refine (Observes.lift (Action.follows_request (r := .clock) hclock)).bind ?_
    intro now _
    split
    · exact Observes.throw _
    · exact accept_observes hrecord h

end Authenticator

end Gatehouse
