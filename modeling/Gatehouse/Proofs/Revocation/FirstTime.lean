import Gatehouse.Proofs.Revocation.Effect
import Gatehouse.Proofs.Service.Course

/-!
# The time of a revocation

A revocation judges by the copy of the record that its caller has, or by what it found in the store, and saves that copy
some requests later. So the time of a stored revocation is written anew by a caller whose copy is from before it
(`revocation_time_rewritten`), and by nobody else: without such a caller the first time stays, whatever the schedule
(`revocation_time_kept`). A stored record that is revoked is never unrevoked.
-/

namespace Gatehouse

variable {s : Service} {id : String} {q r : TokenRecord}

/-- Since when the stored record with an id is revoked. -/
def TokenStore.revokedAt? (s : TokenStore) (id : String) : Option Instant := (s.find? id).bind TokenRecord.revokedAt

theorem TokenStore.revokedAt?_save (s : TokenStore) (r : TokenRecord) (id : String) :
    (s.save r).revokedAt? id = if id = r.id then r.revokedAt else s.revokedAt? id := by
  unfold revokedAt?
  rw [find?_save]
  split <;> rfl

/-- The record that an exchange was to save. -/
def Exchange.saved? (e : Exchange) : Option TokenRecord :=
  match e.request with
  | .store (.save r) => some r
  | _ => none

namespace Revocation

/-! ## The requests of a revocation -/

/-- Marks a record that is revoked, and returns it. -/
def conclude (r : TokenRecord) (now : Instant) : ServiceAction TokenRecord := do
  mark r now
  Action.record (.revocation r.kind)
  return r

/-- Saves a record as revoked since a time, and marks it. -/
def save (r : TokenRecord) (now : Instant) : ServiceAction TokenRecord := do
  store (.save { r with revokedAt := some now })
  conclude { r with revokedAt := some now } now

theorem revoke_eq (r : TokenRecord) :
    revoke r = (do
      let now ← (Action.clock : Action Instant)
      if r.isRevoked then conclude r now else save r now) := by
  refine bind_congr fun now => ?_
  cases hrev : r.isRevoked <;> rfl

theorem revoke_run (r : TokenRecord) :
    (revoke r).run = .ask .clock fun now => if r.isRevoked then (conclude r now).run else (save r now).run := by
  refine congrArg (Action.ask .clock) (funext fun now => ?_)
  cases hrev : r.isRevoked <;> rfl

theorem revokeById_run (id : String) :
    (revokeById id).run = .ask (.store (.find id)) fun found =>
      match found with
      | .ok (some r) => (revoke r).run
      | .ok none => .done (.error (.notFound ("access token " ++ id)))
      | .error e => .done (.error e) := by
  refine congrArg (Action.ask (.store (.find id))) (funext fun found => ?_)
  cases found with
  | error e => rfl
  | ok found => cases found <;> rfl

theorem save_run (r : TokenRecord) (now : Instant) :
    (save r now).run = .ask (.store (.save { r with revokedAt := some now })) fun saved =>
      match saved with
      | .ok () => (conclude { r with revokedAt := some now } now).run
      | .error e => .done (.error e) := by
  refine congrArg (Action.ask (.store (.save { r with revokedAt := some now }))) (funext fun saved => ?_)
  cases saved <;> rfl

/-- The protocol of an action that has no more to do with the records. -/
def offStore : Protocol := ⟨fun r => ∀ c, r ≠ .store c, fun _ _ => True, True⟩

theorem conclude_follows (r : TokenRecord) (now : Instant) : (conclude r now).run.Follows offStore fun _ => True := by
  have hrecord (event : Event) : offStore.admits (.record event) := fun _ h => nomatch h
  have hmark : Observes offStore (mark r now) fun _ => True := by
    refine (Observes.ofOutcome trivial fun a _ => trivial).bind ?_
    intro lifetime _
    exact Observes.liftCache (Cache.put_observes hrecord fun b _ _ h => nomatch h)
  have hconclude : Observes offStore (conclude r now) fun _ => True := by
    refine hmark.bind ?_
    intro _ _
    exact (Observes.lift (Action.follows_request (r := .record _) (hrecord _))).bind fun _ _ => Observes.pure trivial
  exact Action.Follows.mono hconclude fun _ _ => trivial

/-! ## How far a caller has come -/

/-- What a caller asks to revoke: a record, as the caller knows it, or the token with an id. -/
inductive Revoker where
  | copy (r : TokenRecord)
  | byId (id : String)

namespace Revoker

variable {x : Revoker} {es : List Exchange}

/-- What the service does for a caller. -/
def action : Revoker → ServiceAction TokenRecord
  | copy r => revoke r
  | byId id => revokeById id

/-- The copy of a record that a caller has: the one it came with, or the one that it was told of. -/
def Knows (x : Revoker) (es : List Exchange) (r : TokenRecord) : Prop :=
  match x with
  | copy r' => r = r'
  | byId id => (⟨.store (.find id), .ok (some r)⟩ : Exchange) ∈ es

/-- By its exchanges, a caller has a copy of a record that is not revoked, and has not saved it yet. -/
def Unsaved (x : Revoker) (es : List Exchange) (r : TokenRecord) : Prop :=
  x.Knows es r ∧ r.isRevoked = false ∧ ∀ e ∈ es, e.saved? = none

theorem Knows.append (h : x.Knows es r) (e : Exchange) : x.Knows (es ++ [e]) r := by
  cases x with
  | copy r' => exact h
  | byId id => exact List.mem_append_left _ h

/-- How far a caller has come by its exchanges, told by what it still has to do. -/
inductive Stage (x : Revoker) : List Exchange → Action (Except ServiceError TokenRecord) → Prop where
  /-- It looks for the record. -/
  | finding (id : String) (hx : x = byId id) : Stage x [] (revokeById id).run
  /-- It has a copy of the record. -/
  | deciding {es : List Exchange} (r : TokenRecord) (hknows : x.Knows es r) (hes : ∀ e ∈ es, e.saved? = none) :
      Stage x es (revoke r).run
  /-- It is about to save its copy. -/
  | saving {es : List Exchange} (r : TokenRecord) (now : Instant) (h : x.Unsaved es r) : Stage x es (save r now).run
  /-- It has no more to do with the records. -/
  | settled {es : List Exchange} {y : Action (Except ServiceError TokenRecord)} (h : y.Follows offStore fun _ => True) :
      Stage x es y

namespace Stage

theorem start (x : Revoker) : Stage x [] x.action.run := by
  cases x with
  | copy r => exact .deciding r rfl (by simp)
  | byId id => exact .finding id rfl

theorem unsaved_append {e : Exchange} (hes : ∀ e ∈ es, e.saved? = none) (he : e.saved? = none) :
    ∀ e' ∈ es ++ [e], e'.saved? = none := by
  intro e' he'
  rcases List.mem_append.mp he' with he' | he'
  · exact hes e' he'
  · rw [List.mem_singleton.mp he', he]

/-- One more answer. -/
theorem answered {z : Action (Except ServiceError TokenRecord)} {request : Request}
    {next : request.Answer → Action (Except ServiceError TokenRecord)} (h : Stage x es z) (hz : z = .ask request next)
    (a : request.Answer) : Stage x (es ++ [⟨request, a⟩]) (next a) := by
  cases h with
  | finding id hx =>
    rw [revokeById_run] at hz
    cases hz
    cases a with
    | error e => exact .settled trivial
    | ok found =>
      cases found with
      | none => exact .settled trivial
      | some r =>
        refine .deciding r ?_ (unsaved_append (by simp) rfl)
        rw [hx]
        exact List.mem_singleton.mpr rfl
  | deciding r hknows hes =>
    rw [revoke_run] at hz
    cases hz
    cases hrev : r.isRevoked with
    | true => exact .settled (conclude_follows r a)
    | false => exact .saving r a ⟨hknows.append _, hrev, unsaved_append hes rfl⟩
  | saving r now hunsaved =>
    rw [save_run] at hz
    cases hz
    cases a with
    | error e => exact .settled trivial
    | ok saved => exact .settled (conclude_follows _ now)
  | settled hfollows =>
    rw [hz] at hfollows
    exact .settled (hfollows.2 a trivial)

theorem leads {es' : List Exchange} {z z' : Action (Except ServiceError TokenRecord)} (h : Stage x es z)
    (hz : z.Leads es' z') : Stage x (es ++ es') z' := by
  induction hz generalizing es with
  | refl z =>
    rw [List.append_nil]
    exact h
  | ask a _ ih =>
    have hnext := ih (h.answered rfl a)
    rw [List.append_assoc] at hnext
    exact hnext

/-- A caller saves nothing but an unrevoked copy that it has, as revoked. -/
theorem of_save {z : Action (Except ServiceError TokenRecord)}
    {next : (Request.store (.save q)).Answer → Action (Except ServiceError TokenRecord)} (h : Stage x es z)
    (hz : z = .ask (.store (.save q)) next) :
    ∃ r now, x.Unsaved es r ∧ q = { r with revokedAt := some now } := by
  cases h with
  | finding id hx =>
    rw [revokeById_run] at hz
    cases hz
  | deciding r hknows hes =>
    rw [revoke_run] at hz
    cases hz
  | saving r now hunsaved =>
    rw [save_run] at hz
    cases hz
    exact ⟨r, now, hunsaved, rfl⟩
  | settled hfollows =>
    rw [hz] at hfollows
    exact absurd rfl (hfollows.1 (.save q))

end Stage

end Revoker

/-! ## Callers at work together -/

open Interleaving

variable {ι : Type} [DecidableEq ι] {callers : ι → Revoker} {before later : List (Turn ι)} {t : Instant}

/-- The service after a request holds the same records, or one more. -/
theorem answer_store (s : Service) (request : Request) :
    (s.answer request).2.store = s.store ∨
      ∃ q, request = .store (.save q) ∧ (s.answer request).2.store = s.store.save q := by
  cases request with
  | engine c => exact .inl (s.callEngine_store c)
  | store c =>
    change (s.callStore c).2.store = s.store ∨ ∃ q, _ ∧ (s.callStore c).2.store = s.store.save q
    unfold Service.callStore
    split
    · exact .inl rfl
    · cases c with
      | save q => exact .inr ⟨q, rfl, rfl⟩
      | _ => exact .inl rfl
  | _ => exact .inl rfl

/-- The store tells of no record but the one that it holds. -/
theorem find?_of_answer (h : (s.answer (.store (.find id))).1 = .returned (.ok (some r))) :
    s.store.find? id = some r := by
  change Outcome.returned (s.callStore (.find id)).1 = _ at h
  unfold Service.callStore at h
  split at h
  · cases h
  · exact Except.ok.inj (Outcome.returned.inj h)

/-- What is no call of the service leaves the records as they are. -/
theorem apply_store {e : ServiceEvent} (he : ∀ c, e ≠ .call c) : (s.apply e).store = s.store := by
  cases e with
  | call c => exact absurd rfl (he c)
  | _ => rfl

/-- Callers that revoke tokens, none of which has made a request yet. -/
def revokers (s : Service) (callers : ι → Revoker) : Interleaving fun _ : ι => Except ServiceError TokenRecord :=
  .start s fun i => (callers i).action.run

/-- A turn of a caller, or one in which the clocks move, expired entries are removed or calls are made to fail. -/
def IsRevokerTurn (t : Turn ι) : Prop := ∀ c, t ≠ .other (.call c)

/-- What a caller is about to save, it has as an unrevoked copy. -/
theorem unsaved_of_rest {turns : List (Turn ι)} {i : ι}
    {next : (Request.store (.save q)).Answer → Action (Except ServiceError TokenRecord)}
    (h : ((revokers s callers).after turns).rest i = .ask (.store (.save q)) next) :
    ∃ r now, (callers i).Unsaved (own ((revokers s callers).after turns).past i) r ∧
      q = { r with revokedAt := some now } := by
  obtain ⟨x, hleads, hrest⟩ := leads_after s (fun i => (callers i).action.run) turns i
  have hstage := (Revoker.Stage.start (callers i)).leads hleads
  rw [List.nil_append] at hstage
  obtain rfl : .ask (.store (.save q)) next = x :=
    h.symm.trans (hrest.resolve_right fun hnone => nomatch h.symm.trans hnone)
  exact hstage.of_save rfl

/-- What a turn does to the records: nothing, or a caller saves an unrevoked copy that it has, as revoked. -/
theorem store_apply {turns : List (Turn ι)} {turn : Turn ι} (hturn : IsRevokerTurn turn) :
    (((revokers s callers).after turns).apply turn).service.store = ((revokers s callers).after turns).service.store ∨
      ∃ i r now, (callers i).Unsaved (own ((revokers s callers).after turns).past i) r ∧
        (((revokers s callers).after turns).apply turn).service.store =
          ((revokers s callers).after turns).service.store.save { r with revokedAt := some now } := by
  have hunsaved (i : ι) (q : TokenRecord)
      (next : (Request.store (.save q)).Answer → Action (Except ServiceError TokenRecord))
      (hrest : ((revokers s callers).after turns).rest i = .ask (.store (.save q)) next) := unsaved_of_rest hrest
  generalize (revokers s callers).after turns = y at hunsaved ⊢
  have hrequest (i : ι) (request : Request) (next : request.Answer → Action (Except ServiceError TokenRecord))
      (hrest : y.rest i = .ask request next) :
      (y.service.answer request).2.store = y.service.store ∨
        ∃ i r now, (callers i).Unsaved (own y.past i) r ∧
          (y.service.answer request).2.store = y.service.store.save { r with revokedAt := some now } := by
    refine (answer_store y.service request).imp_right ?_
    rintro ⟨q, rfl, hstore⟩
    obtain ⟨r, now, hcopy, rfl⟩ := hunsaved i q next hrest
    exact ⟨i, r, now, hcopy, hstore⟩
  cases turn with
  | other e => exact .inl (apply_store fun c hc => hturn c (hc ▸ rfl))
  | step i =>
    have hsteps := y.steps_apply i
    generalize y.apply (.step i) = y' at hsteps ⊢
    cases hsteps with
    | ended => exact .inl rfl
    | answered request next x hrest hanswer => exact hrequest i request next hrest
    | abandoned request next hrest hanswer => exact hrequest i request next hrest

/-- What holds at a point of a schedule, and is kept by every turn after that, holds at every later point. -/
theorem holds_after {I : Interleaving (fun _ : ι => Except ServiceError TokenRecord) → Prop}
    (hI : ∀ turns turn, IsRevokerTurn turn → I ((revokers s callers).after turns) →
      I (((revokers s callers).after turns).apply turn))
    (hlater : ∀ t ∈ later, IsRevokerTurn t) (h : I ((revokers s callers).after before)) :
    I ((revokers s callers).after (before ++ later)) := by
  induction later generalizing before with
  | nil =>
    rw [List.append_nil]
    exact h
  | cons turn later ih =>
    have hturn := hI before turn (hlater turn List.mem_cons_self) h
    have happly : (revokers s callers).after (before ++ [turn]) = ((revokers s callers).after before).apply turn :=
      List.foldl_append
    rw [List.append_cons]
    exact ih (fun t ht => hlater t (List.mem_cons_of_mem _ ht)) (happly ▸ hturn)

theorem keyed_after {turns : List (Turn ι)} (hkeyed : s.store.Keyed) (hturns : ∀ t ∈ turns, IsRevokerTurn t) :
    ((revokers s callers).after turns).service.store.Keyed := by
  have hstart : ((revokers s callers).after []).service.store.Keyed := hkeyed
  refine holds_after (I := fun y => y.service.store.Keyed) ?_ hturns hstart
  intro turns turn hturn h
  rcases store_apply hturn with hstore | ⟨i, r, now, -, hstore⟩
  · rw [hstore]
    exact h
  · rw [hstore]
    exact h.save _

/-- A stored record that is revoked is never unrevoked. -/
theorem revoked_after (hlater : ∀ t ∈ later, IsRevokerTurn t)
    (h : (((revokers s callers).after before).service.store.revokedAt? id).isSome = true) :
    (((revokers s callers).after (before ++ later)).service.store.revokedAt? id).isSome = true := by
  refine holds_after (I := fun y => (y.service.store.revokedAt? id).isSome = true) ?_ hlater h
  intro turns turn hturn h
  rcases store_apply hturn with hstore | ⟨i, r, now, -, hstore⟩
  · rw [hstore]
    exact h
  · rw [hstore, TokenStore.revokedAt?_save]
    split
    · rfl
    · exact h

/-- The records are under their ids, the one with an id is revoked since a time, and no caller has an unrevoked copy of
it that it has not saved yet. -/
structure Kept (callers : ι → Revoker) (id : String) (t : Instant)
    (y : Interleaving fun _ : ι => Except ServiceError TokenRecord) : Prop where
  keyed : y.service.store.Keyed
  revokedAt : y.service.store.revokedAt? id = some t
  copies : ∀ i r, (callers i).Unsaved (own y.past i) r → r.id ≠ id

/-- Whoever is told of a record that is revoked gets no unrevoked copy of it. -/
theorem Kept.copies_answered {y : Interleaving fun _ : ι => Except ServiceError TokenRecord} {i : ι} {request : Request}
    {a : request.Answer} (h : Kept callers id t y) (hanswer : (y.service.answer request).1 = .returned a)
    (hr : (callers i).Unsaved (own y.past i ++ [⟨request, a⟩]) r) : r.id ≠ id := by
  obtain ⟨hknows, hrev, hes⟩ := hr
  have hbefore : ∀ e ∈ own y.past i, e.saved? = none := fun e he => hes e (List.mem_append_left _ he)
  have hcopies := h.copies i r
  unfold Revoker.Unsaved at hcopies
  generalize callers i = x at hknows hcopies
  cases x with
  | copy r' => exact hcopies ⟨hknows, hrev, hbefore⟩
  | byId id' =>
    rcases List.mem_append.mp hknows with hknows | hknows
    · exact hcopies ⟨hknows, hrev, hbefore⟩
    · -- The copy is what the store holds now.
      cases List.mem_singleton.mp hknows
      have hfound := find?_of_answer hanswer
      rintro rfl
      have hid : r.id = id' := h.keyed id' r hfound
      have hrevoked := h.revokedAt
      unfold TokenStore.revokedAt? at hrevoked
      rw [hid, hfound] at hrevoked
      change r.revokedAt = some t at hrevoked
      unfold TokenRecord.isRevoked at hrev
      rw [hrevoked] at hrev
      cases hrev

theorem Kept.apply {turns : List (Turn ι)} {turn : Turn ι} (hturn : IsRevokerTurn turn)
    (h : Kept callers id t ((revokers s callers).after turns)) :
    Kept callers id t (((revokers s callers).after turns).apply turn) := by
  refine ⟨?_, ?_, ?_⟩
  · rcases store_apply hturn with hstore | ⟨i, r, now, -, hstore⟩
    · rw [hstore]
      exact h.keyed
    · rw [hstore]
      exact h.keyed.save _
  · rcases store_apply hturn with hstore | ⟨i, r, now, hcopy, hstore⟩
    · rw [hstore]
      exact h.revokedAt
    · rw [hstore, TokenStore.revokedAt?_save, if_neg (fun heq => h.copies i r hcopy heq.symm)]
      exact h.revokedAt
  · generalize (revokers s callers).after turns = y at h ⊢
    cases turn with
    | other e => exact h.copies
    | step j =>
      have hsteps := y.steps_apply j
      generalize y.apply (.step j) = y' at hsteps ⊢
      intro i r hr
      cases hsteps with
      | ended => exact h.copies i r hr
      | abandoned request next hrest hanswer => exact h.copies i r hr
      | answered request next a hrest hanswer =>
        rw [own_concat] at hr
        split at hr
        · exact h.copies_answered hanswer hr
        · exact h.copies i r hr

/-- The time of a revocation is written once, but for callers with old copies. Once the stored record with an id is
revoked, it stays revoked; and the time stays the same, whatever the schedule and whichever calls fail, unless a caller
had an unrevoked copy of the record by then, and had not saved it yet. -/
theorem revocation_time_kept (hkeyed : s.store.Keyed) (hbefore : ∀ t ∈ before, IsRevokerTurn t)
    (hlater : ∀ t ∈ later, IsRevokerTurn t)
    (ht : ((revokers s callers).after before).service.store.revokedAt? id = some t) :
    (((revokers s callers).after (before ++ later)).service.store.revokedAt? id).isSome = true ∧
      ((∀ i r, (callers i).Unsaved (own ((revokers s callers).after before).past i) r → r.id ≠ id) →
        ((revokers s callers).after (before ++ later)).service.store.revokedAt? id = some t) := by
  refine ⟨revoked_after hlater (by rw [ht]; rfl), fun hcopies => ?_⟩
  have hstart : Kept callers id t ((revokers s callers).after before) := ⟨keyed_after hkeyed hbefore, ht, hcopies⟩
  exact (holds_after (fun _ _ hturn h => h.apply hturn) hlater hstart).revokedAt

/-- Two callers that revoke a token by its id. -/
def sampleRevokers : Interleaving fun _ : Bool => Except ServiceError TokenRecord :=
  revokers sampleService fun _ => .byId "admin_access_tokens:1"

/-- A caller revokes the token at the start of 1970, and another one five seconds later. The time stays the start of
1970. -/
theorem revocation_time_kept_by_later_revoker :
    (sampleRevokers.after (List.replicate 6 (.step true) ++
      .other (.advance (Span.ofSeconds 5)) :: List.replicate 6 (.step false))).service.store.revokedAt?
        "admin_access_tokens:1" = some ⟨0, 0⟩ := by
  have hturns (i : Bool) : ∀ t ∈ List.replicate 6 (Turn.step i), IsRevokerTurn t := by
    intro t ht c heq
    rw [List.eq_of_mem_replicate ht] at heq
    cases heq
  refine (revocation_time_kept (t := ⟨0, 0⟩) (TokenStore.keyed_ofList _) (hturns true) (fun t ht => ?_)
    (by decide +kernel)).2 ?_
  · rcases List.mem_cons.mp ht with rfl | ht
    · exact fun c heq => nomatch heq
    · exact hturns false t ht
  · intro i r hr
    cases i with
    | true =>
      -- The first caller has saved its copy.
      have hsaved :
          ∃ e ∈ own (sampleRevokers.after (List.replicate 6 (.step true))).past true, e.saved?.isSome = true :=
        List.any_eq_true.mp rfl
      obtain ⟨e, he, hsome⟩ := hsaved
      rw [hr.2.2 e he] at hsome
      cases hsome
    | false => exact absurd hr.1 List.not_mem_nil

/-- A caller that has a copy of the record from before its revocation revokes it again, five seconds later, and the time
of the stored revocation becomes the later one. -/
theorem revocation_time_rewritten :
    (sampleService.after [.call (.revoke sampleRecord)]).store.revokedAt? "admin_access_tokens:1" = some ⟨0, 0⟩ ∧
      (sampleService.after [.call (.revoke sampleRecord), .advance (Span.ofSeconds 5),
        .call (.revoke sampleRecord)]).store.revokedAt? "admin_access_tokens:1" = some ⟨5, 0⟩ :=
  ⟨rfl, rfl⟩

end Revocation

end Gatehouse
