import Gatehouse.OneTimeCode
import Gatehouse.Proofs.Service.Interleaving

/-!
# The course of an action

What a caller was asked and answered says how far it has come: by these exchanges its program leads to what it still has
to do, however the requests of other callers came in between (`Interleaving.leads_after`). An operation that ends well
has had all of its exchanges, in order.
-/

namespace Gatehouse

variable {ε α β : Type}

/-- Being answered the exchanges of a list in order, an action becomes another one. -/
inductive Action.Leads : Action α → List Exchange → Action α → Prop where
  | refl (x : Action α) : Leads x [] x
  | ask {r : Request} {next : r.Answer → Action α} {es : List Exchange} {y : Action α} (a : r.Answer) :
      Leads (next a) es y → Leads (.ask r next) (⟨r, a⟩ :: es) y

namespace Action.Leads

variable {es : List Exchange}

/-- One more answer. -/
theorem concat {x : Action α} {r : Request} {next : r.Answer → Action α} (h : x.Leads es (.ask r next))
    (a : r.Answer) : x.Leads (es ++ [⟨r, a⟩]) (next a) := by
  generalize hy : Action.ask r next = y at h
  induction h with
  | refl x =>
    subst hy
    exact .ask a (.refl _)
  | ask b _ ih => exact .ask b (ih hy)

theorem of_done {a b : α} (h : (Action.done a).Leads es (.done b)) : es = [] ∧ a = b := by
  cases h
  exact ⟨rfl, rfl⟩

/-- What leads to an end leads through the end of the first action. -/
theorem bind_done {x : Action α} {f : α → Action β} {b : β} (h : (x.bind f).Leads es (.done b)) :
    ∃ a es₁ es₂, es = es₁ ++ es₂ ∧ x.Leads es₁ (.done a) ∧ (f a).Leads es₂ (.done b) := by
  induction x generalizing es with
  | done a => exact ⟨a, [], es, rfl, .refl _, h⟩
  | abandon => cases h
  | ask r next ih =>
    cases h with
    | ask x hnext =>
      obtain ⟨a, es₁, es₂, rfl, hfirst, hsecond⟩ := ih x hnext
      exact ⟨a, _, es₂, rfl, .ask x hfirst, hsecond⟩

theorem bind_ok {x : ExceptT ε Action α} {f : α → ExceptT ε Action β} {b : β}
    (h : (x >>= f).run.Leads es (.done (.ok b))) :
    ∃ a es₁ es₂, es = es₁ ++ es₂ ∧ x.run.Leads es₁ (.done (.ok a)) ∧ (f a).run.Leads es₂ (.done (.ok b)) := by
  obtain ⟨r, es₁, es₂, rfl, hfirst, hsecond⟩ := bind_done (f := ExceptT.bindCont f) h
  cases r with
  | ok a => exact ⟨a, es₁, es₂, rfl, hfirst, hsecond⟩
  | error e => cases (of_done hsecond).2

theorem request {r : Request} {a : r.Answer} (h : (Action.request r).Leads es (.done a)) : es = [⟨r, a⟩] := by
  cases h with
  | ask x hnext =>
    obtain ⟨rfl, rfl⟩ := of_done hnext
    rfl

theorem lift {x : Action α} {a : α} (h : (liftM x : ExceptT ε Action α).run.Leads es (.done (.ok a))) :
    x.Leads es (.done a) := by
  obtain ⟨b, es₁, es₂, rfl, hfirst, hsecond⟩ := bind_done h
  obtain ⟨rfl, heq⟩ := of_done hsecond
  cases heq
  rw [List.append_nil]
  exact hfirst

theorem liftCache {x : CacheAction α} {a : α} (h : (CacheAction.lift x).run.Leads es (.done (.ok a))) :
    x.run.Leads es (.done (.ok a)) := by
  obtain ⟨r, es₁, es₂, rfl, hfirst, hsecond⟩ := bind_done h
  obtain ⟨rfl, heq⟩ := of_done hsecond
  cases r with
  | error e => cases heq
  | ok b =>
    cases heq
    rw [List.append_nil]
    exact hfirst

end Action.Leads

/-- The result of an action that has come to one. -/
def Action.result? : Action α → Option α
  | .done a => some a
  | _ => none

theorem Action.result?_eq_some {x : Action α} {a : α} : x.result? = some a ↔ x = .done a := by
  cases x <;> simp [result?]

/-! ## The operations -/

variable {es : List Exchange}

namespace Cache

theorem counted_leads {op : Operation} {c : EngineCall} {r : Except CacheError c.Reply}
    (h : (counted op c).run.Leads es (.done r)) :
    es = [⟨.engine c, r⟩, ⟨.record (.operation op (.ofResult r)), ()⟩] := by
  obtain ⟨x, es₁, es₂, rfl, hcall, hrest⟩ := Action.Leads.bind_done h
  obtain rfl := hcall.request
  obtain ⟨u, es₃, es₄, rfl, hrecord, hdone⟩ := Action.Leads.bind_done hrest
  obtain ⟨rfl, rfl⟩ := hdone.of_done
  obtain rfl := hrecord.request
  rfl

theorem put_leads [Json.Encode α] {key : String} {value : α} {expiration : Option Span}
    (h : (put key value expiration).run.Leads es (.done (.ok ()))) :
    ∃ b event, es = [⟨.engine (.put key b (lifetime expiration)), .ok ()⟩, ⟨.record event, ()⟩] := by
  unfold put at h
  split at h
  · exact ⟨_, _, counted_leads h⟩
  · cases h

end Cache

namespace Limiter

variable {l : Limiter}

/-- A guard that passes has listed fewer attempts than its limit. -/
theorem guard_leads {limit : Nat} (h : (l.guard limit).run.Leads es (.done (.ok ()))) :
    ∃ r event, es = [⟨.engine (.keys l.attemptStem), r⟩, ⟨.record event, ()⟩] ∧
      ∀ keys : List String, r = .ok keys → keys.length < limit := by
  obtain ⟨used, es₁, es₂, rfl, hcount, hrest⟩ := Action.Leads.bind_done h
  obtain ⟨r, es₃, es₄, rfl, hscan, hused⟩ := Action.Leads.bind_done hcount
  have hpasses : ¬limit ≤ used ∧ es₂ = [] := by
    split at hrest
    · obtain ⟨u, es₅, es₆, rfl, -, hdone⟩ := Action.Leads.bind_done hrest
      cases hdone.of_done.2
    · rename_i hlimit
      exact ⟨hlimit, hrest.of_done.1⟩
  obtain ⟨hlimit, rfl⟩ := hpasses
  obtain rfl := Cache.counted_leads hscan
  cases r with
  | ok keys =>
    obtain ⟨rfl, rfl⟩ := hused.of_done
    exact ⟨_, _, rfl, fun keys' hkeys => Except.ok.inj hkeys ▸ Nat.lt_of_not_le hlimit⟩
  | error e =>
    obtain ⟨rfl, rfl⟩ := hused.of_done
    exact ⟨_, _, rfl, fun _ hkeys => nomatch hkeys⟩

theorem record_leads (h : l.record.run.Leads es (.done (.ok ()))) :
    ∃ now second b event, es = [⟨.clock, now⟩,
      ⟨.engine (.put (Keys.attempt l.stem second) b (Cache.lifetime (some l.window))), .ok ()⟩,
      ⟨.record event, ()⟩] := by
  obtain ⟨now, es₁, es₂, rfl, hclock, hrecord⟩ := Action.Leads.bind_ok h
  obtain rfl := hclock.lift.request
  obtain ⟨b, event, rfl⟩ := Cache.put_leads hrecord.liftCache
  exact ⟨now, _, b, event, rfl⟩

end Limiter

namespace OneTimeCode

variable {settings : CodeSettings} {medium credential code : String}

/-- A code is made with one draw. -/
theorem generate_leads {length : Nat} (h : (generate length).Leads es (.done code)) :
    ∃ count digits, es = [⟨.draw 9 count, digits⟩] := by
  unfold generate at h
  split at h
  · obtain ⟨digits, es₁, es₂, rfl, hdraw, hofDigits⟩ := Action.Leads.bind_done h
    obtain rfl := hdraw.request
    obtain ⟨rfl, -⟩ := hofDigits.of_done
    exact ⟨_, digits, rfl⟩
  · cases h

/-- An issue that ends with a code has listed fewer attempts than its limit, and then, without looking again, it has put
the code and recorded an attempt. -/
theorem issue_leads (h : (issue settings medium credential).run.Leads es (.done (.ok code))) :
    ∃ r event count digits key b event' now second b' event'',
      es =
        [⟨.engine (.keys (limiter settings medium credential).attemptStem), r⟩, ⟨.record event, ()⟩,
          ⟨.draw 9 count, digits⟩,
          ⟨.engine (.put (Keys.code medium credential key) b (Cache.lifetime (some settings.lifetime))), .ok ()⟩,
          ⟨.record event', ()⟩, ⟨.clock, now⟩,
          ⟨.engine (.put (Keys.attempt (limiter settings medium credential).stem second) b'
            (Cache.lifetime (some settings.sendWindow))), .ok ()⟩,
          ⟨.record event'', ()⟩] ∧
      ∀ keys : List String, r = .ok keys → keys.length < settings.sendLimit := by
  obtain ⟨_, es₁, es₂, rfl, hguard, hpassed⟩ := Action.Leads.bind_ok h
  obtain ⟨r, event, rfl, hlimit⟩ := Limiter.guard_leads hguard
  obtain ⟨key, es₃, es₄, rfl, hgenerate, hgenerated⟩ := Action.Leads.bind_ok hpassed
  obtain ⟨count, digits, rfl⟩ := generate_leads hgenerate.lift
  obtain ⟨_, es₇, es₈, rfl, hput, hwritten⟩ := Action.Leads.bind_ok hgenerated
  obtain ⟨b, event', rfl⟩ := Cache.put_leads hput.liftCache
  obtain ⟨_, es₉, es₁₀, rfl, hrecord, hreturn⟩ := Action.Leads.bind_ok hwritten
  obtain ⟨now, second, b', event'', rfl⟩ := Limiter.record_leads hrecord
  obtain ⟨rfl, -⟩ := hreturn.of_done
  exact ⟨r, event, count, digits, key, b, event', now, second, b', event'', rfl, hlimit⟩

end OneTimeCode

/-! ## Callers at work together -/

namespace Interleaving

variable {ι : Type} [DecidableEq ι] {β : ι → Type}

/-- The exchanges of one of the callers. -/
def own (past : List (Occurrence ι)) (i : ι) : List Exchange :=
  (past.filter fun o => o.caller = i).map Occurrence.exchange

theorem own_append (past later : List (Occurrence ι)) (i : ι) : own (past ++ later) i = own past i ++ own later i := by
  unfold own
  rw [List.filter_append, List.map_append]

theorem own_concat (past : List (Occurrence ι)) (o : Occurrence ι) (i : ι) :
    own (past ++ [o]) i = if o.caller = i then own past i ++ [o.exchange] else own past i := by
  rw [own_append]
  by_cases hi : o.caller = i
  · rw [if_pos hi, own, own, List.filter_cons_of_pos (by simpa using hi)]
    rfl
  · rw [if_neg hi, own, own, List.filter_cons_of_neg (by simpa using hi)]
    exact List.append_nil _

theorem mem_own {past : List (Occurrence ι)} {i : ι} {e : Exchange} :
    e ∈ own past i ↔ ∃ o ∈ past, o.caller = i ∧ o.exchange = e := by
  unfold own
  simp only [List.mem_map, List.mem_filter, decide_eq_true_eq, and_assoc]

/-- By its own exchanges, the program of a caller leads to what it still has to do, unless it was abandoned. -/
theorem leads_after (s : Service) (programs : (i : ι) → Action (β i)) (turns : List (Turn ι)) (i : ι) :
    ∃ x, (programs i).Leads (own ((start s programs).after turns).past i) x ∧
      (((start s programs).after turns).rest i = x ∨ ((start s programs).after turns).rest i = .abandon) := by
  refine after_keeps (I := fun y => ∃ x, (programs i).Leads (own y.past i) x ∧ (y.rest i = x ∨ y.rest i = .abandon))
    (T := fun _ => True) (fun y t hy _ => ?_) (fun _ _ => trivial) ⟨_, .refl _, .inl rfl⟩
  cases t with
  | other e => exact hy
  | step j =>
    obtain ⟨x, hleads, hrest⟩ := hy
    have hsteps := y.steps_apply j
    have hother (hij : i ≠ j) : (y.apply (.step j)).rest i = y.rest i := rest_apply_of_ne hij
    generalize y.apply (.step j) = y' at hsteps hother ⊢
    by_cases hij : i = j
    · subst hij
      cases hsteps with
      | ended => exact ⟨x, hleads, hrest⟩
      | answered r next a hask hanswer =>
        rw [hask] at hrest
        obtain rfl : .ask r next = x := hrest.resolve_right nofun
        refine ⟨next a, ?_, .inl (Function.update_self _ _ _)⟩
        rw [own_concat, if_pos rfl]
        exact hleads.concat a
      | abandoned r next hask hanswer => exact ⟨x, hleads, .inr (Function.update_self _ _ _)⟩
    · refine ⟨x, ?_, by rw [hother hij]; exact hrest⟩
      cases hsteps with
      | ended => exact hleads
      | answered r next a hask hanswer =>
        rw [own_concat, if_neg (Ne.symm hij)]
        exact hleads
      | abandoned r next hask hanswer => exact hleads

end Interleaving

end Gatehouse
