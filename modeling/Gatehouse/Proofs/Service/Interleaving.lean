import Mathlib.Logic.Function.Basic
import Gatehouse.Proofs.Service.Alike
import Gatehouse.Proofs.Service.Recorded

/-!
# Callers at work together

Callers run their actions against one service at the same time. A schedule says whose turn it is to make the next
request; the clocks move and the engine is swept in between. What has been asked and answered so far is the past of an
interleaving. The live keys and every scan are told by it, whatever the schedule (`Interleaving.Sound`).
-/

namespace Gatehouse

/-- A turn of a schedule. -/
inductive Turn (ι : Type) where
  /-- A caller makes its next request. -/
  | step (caller : ι)
  | other (e : ServiceEvent)

/-- A turn in which a caller makes a request, the clocks move, or expired entries are removed. -/
def Turn.IsOrderly {ι : Type} : Turn ι → Prop
  | step _ => True
  | other e => e.IsFaultless ∧ ∀ c, e ≠ .call c

/-- Whether a turn is one of a caller. -/
def Turn.isOf {ι : Type} [DecidableEq ι] (i : ι) : Turn ι → Bool
  | step j => decide (j = i)
  | other _ => false

/-- The next request of an action with its answer, if there is one. -/
def Service.exchange? {α : Type} (s : Service) : Action α → Option Exchange
  | .ask r _ =>
    match (s.answer r).1 with
    | .returned x => some ⟨r, x⟩
    | .abandoned => none
  | _ => none

variable {ι : Type} {β : ι → Type}

/-- Callers at work. -/
structure Interleaving (β : ι → Type) where
  service : Service
  /-- What every caller still has to do. -/
  rest : (i : ι) → Action (β i)
  /-- The requests that were answered, the latest last. -/
  past : List (Occurrence ι)

namespace Interleaving

/-- Callers that have not made a request yet. -/
def start (s : Service) (programs : (i : ι) → Action (β i)) : Interleaving β := ⟨s, programs, []⟩

variable [DecidableEq ι]

/-- The interleaving after a turn. -/
def apply (y : Interleaving β) : Turn ι → Interleaving β
  | .step i =>
    { service := (y.service.step (y.rest i)).2
      rest := Function.update y.rest i (y.service.step (y.rest i)).1
      past := y.past ++ ((y.service.exchange? (y.rest i)).map fun e => ⟨i, y.service.clocks, e⟩).toList }
  | .other e => { y with service := y.service.apply e }

/-- The interleaving after a schedule. -/
def after (y : Interleaving β) (turns : List (Turn ι)) : Interleaving β := turns.foldl apply y

variable {y : Interleaving β} {i : ι}

/-- What becomes of an interleaving when a caller takes its turn. -/
inductive Steps (y : Interleaving β) (i : ι) : Interleaving β → Prop where
  /-- The caller is through. -/
  | ended : Steps y i y
  | answered (r : Request) (next : r.Answer → Action (β i)) (x : r.Answer) (hrest : y.rest i = .ask r next)
      (hanswer : (y.service.answer r).1 = .returned x) :
      Steps y i ⟨(y.service.answer r).2, Function.update y.rest i (next x),
        y.past ++ [⟨i, y.service.clocks, ⟨r, x⟩⟩]⟩
  | abandoned (r : Request) (next : r.Answer → Action (β i)) (hrest : y.rest i = .ask r next)
      (hanswer : (y.service.answer r).1 = .abandoned) :
      Steps y i ⟨(y.service.answer r).2, Function.update y.rest i .abandon, y.past⟩

theorem apply_step_of {x : Action (β i)} {s : Service} {e : Option Exchange}
    (hstep : y.service.step (y.rest i) = (x, s)) (hexchange : y.service.exchange? (y.rest i) = e) :
    y.apply (.step i) =
      ⟨s, Function.update y.rest i x, y.past ++ (e.map fun e => ⟨i, y.service.clocks, e⟩).toList⟩ := by
  simp only [apply, hstep, hexchange]

theorem apply_step_of_ended (hstep : y.service.step (y.rest i) = (y.rest i, y.service))
    (hexchange : y.service.exchange? (y.rest i) = none) : y.apply (.step i) = y := by
  rw [apply_step_of hstep hexchange, Function.update_eq_self, Option.map_none, Option.toList_none, List.append_nil]

theorem apply_step_of_answered {r : Request} {next : r.Answer → Action (β i)} {x : r.Answer}
    (hrest : y.rest i = .ask r next) (hanswer : (y.service.answer r).1 = .returned x) :
    y.apply (.step i) =
      ⟨(y.service.answer r).2, Function.update y.rest i (next x), y.past ++ [⟨i, y.service.clocks, ⟨r, x⟩⟩]⟩ := by
  have heq : y.service.answer r = (.returned x, (y.service.answer r).2) := Prod.ext hanswer rfl
  have hstep : y.service.step (y.rest i) = (next x, (y.service.answer r).2) := by
    rw [hrest, Service.step, Action.step, heq]
  have hexchange : y.service.exchange? (y.rest i) = some ⟨r, x⟩ := by
    rw [hrest, Service.exchange?, heq]
  rw [apply_step_of hstep hexchange]
  rfl

theorem apply_step_of_abandoned {r : Request} {next : r.Answer → Action (β i)} (hrest : y.rest i = .ask r next)
    (hanswer : (y.service.answer r).1 = .abandoned) :
    y.apply (.step i) = ⟨(y.service.answer r).2, Function.update y.rest i .abandon, y.past⟩ := by
  have heq : y.service.answer r = (.abandoned, (y.service.answer r).2) := Prod.ext hanswer rfl
  have hstep : y.service.step (y.rest i) = (.abandon, (y.service.answer r).2) := by
    rw [hrest, Service.step, Action.step, heq]
  have hexchange : y.service.exchange? (y.rest i) = none := by
    rw [hrest, Service.exchange?, heq]
  rw [apply_step_of hstep hexchange, Option.map_none, Option.toList_none, List.append_nil]

theorem steps_apply (y : Interleaving β) (i : ι) : y.Steps i (y.apply (.step i)) := by
  cases hrest : y.rest i with
  | done a =>
    rw [apply_step_of_ended (by rw [hrest]; rfl) (by rw [hrest]; rfl)]
    exact .ended
  | abandon =>
    rw [apply_step_of_ended (by rw [hrest]; rfl) (by rw [hrest]; rfl)]
    exact .ended
  | ask r next =>
    cases hanswer : (y.service.answer r).1 with
    | returned x =>
      rw [apply_step_of_answered hrest hanswer]
      exact .answered r next x hrest hanswer
    | abandoned =>
      rw [apply_step_of_abandoned hrest hanswer]
      exact .abandoned r next hrest hanswer

theorem rest_apply_self : (y.apply (.step i)).rest i = (y.service.step (y.rest i)).1 := Function.update_self _ _ _

/-- A caller whose turn it is not has to do what it had to do before. -/
theorem rest_apply_of_ne {j : ι} (h : i ≠ j) : (y.apply (.step j)).rest i = y.rest i := Function.update_of_ne h _ _

theorem rest_after_of_not_isOf {turns : List (Turn ι)} (h : ∀ t ∈ turns, t.isOf i = false) :
    (y.after turns).rest i = y.rest i := by
  induction turns generalizing y with
  | nil => rfl
  | cons t rest ih =>
    refine (ih fun t' ht' => h t' (List.mem_cons_of_mem _ ht')).trans ?_
    have ht := h t List.mem_cons_self
    cases t with
    | other e => rfl
    | step j => exact rest_apply_of_ne fun heq => of_decide_eq_false ht heq.symm

theorem after_append (y : Interleaving β) (turns later : List (Turn ι)) :
    y.after (turns ++ later) = (y.after turns).after later := List.foldl_append

/-! ## The past -/

/-- What a schedule adds to the past, and all else that it does, is the same whatever the past was. -/
theorem after_past (y : Interleaving β) (turns : List (Turn ι)) :
    ∃ newer, ∀ past, ({ y with past } : Interleaving β).after turns = { y.after turns with past := past ++ newer } := by
  induction turns generalizing y with
  | nil => exact ⟨[], fun past => by rw [List.append_nil]; rfl⟩
  | cons t rest ih =>
    obtain ⟨newer, hnewer⟩ := ih (y.apply t)
    cases t with
    | other e => exact ⟨newer, hnewer⟩
    | step i =>
      refine ⟨((y.service.exchange? (y.rest i)).map fun e => ⟨i, y.service.clocks, e⟩).toList ++ newer,
        fun past => ?_⟩
      rw [← List.append_assoc]
      exact hnewer _

/-- In the next turn of its caller, an occurrence is asked and answered. -/
def Makes (y : Interleaving β) (o : Occurrence ι) : Prop :=
  ∃ r next x, y.rest o.caller = .ask r next ∧ (y.service.answer r).1 = .returned x ∧
    o = ⟨o.caller, y.service.clocks, ⟨r, x⟩⟩

/-- Whatever is in the past was asked and answered in a turn. -/
theorem exists_turn {turns : List (Turn ι)} {older newer : List (Occurrence ι)} {o : Occurrence ι}
    (hstart : y.past = []) (h : (y.after turns).past = older ++ o :: newer) :
    ∃ before later, turns = before ++ .step o.caller :: later ∧ (y.after before).past = older ∧
      (y.after before).Makes o := by
  induction turns using List.reverseRecOn generalizing newer with
  | nil =>
    change y.past = _ at h
    rw [hstart] at h
    exact absurd h.symm (List.append_ne_nil_of_right_ne_nil older (List.cons_ne_nil o newer))
  | append_singleton turns t ih =>
    have hearlier (hpast : ∃ newer, (y.after turns).past = older ++ o :: newer) :
        ∃ before later, turns ++ [t] = before ++ .step o.caller :: later ∧ (y.after before).past = older ∧
          (y.after before).Makes o := by
      obtain ⟨newer, hpast⟩ := hpast
      obtain ⟨before, later, rfl, hmade⟩ := ih hpast
      exact ⟨before, later ++ [t], by simp, hmade⟩
    rw [after_append] at h
    cases t with
    | other e => exact hearlier ⟨_, h⟩
    | step i =>
      have hsteps := (y.after turns).steps_apply i
      change ((y.after turns).apply (.step i)).past = _ at h
      generalize (y.after turns).apply (.step i) = y' at hsteps h
      cases hsteps with
      | ended => exact hearlier ⟨_, h⟩
      | abandoned r next hask hanswer => exact hearlier ⟨_, h⟩
      | answered r next x hask hanswer =>
        cases newer using List.reverseRecOn with
        | nil =>
          obtain ⟨hpast, hsame⟩ := List.append_inj' h rfl
          obtain rfl := List.singleton_inj.mp hsame
          exact ⟨turns, [], rfl, hpast, r, next, x, hask, hanswer, rfl⟩
        | append_singleton newer last =>
          rw [← List.cons_append, ← List.append_assoc] at h
          exact hearlier ⟨newer, (List.append_inj' h rfl).1⟩

/-! ## What a schedule keeps -/

/-- What every turn of a schedule keeps, the schedule keeps. -/
theorem after_keeps {I : Interleaving β → Prop} {T : Turn ι → Prop} (hI : ∀ y t, I y → T t → I (y.apply t))
    {turns : List (Turn ι)} (hturns : ∀ t ∈ turns, T t) (hy : I y) : I (y.after turns) := by
  induction turns generalizing y with
  | nil => exact hy
  | cons t rest ih =>
    exact ih (fun t' ht' => hturns t' (List.mem_cons_of_mem _ ht')) (hI y t hy (hturns t List.mem_cons_self))

/-- An action that keeps to a protocol still does after a turn, if the answers are those that it reckons with. -/
theorem follows_apply {P : Protocol} {Q : β i → Prop} (h : (y.rest i).Follows P Q)
    (htells : ∀ r x, P.admits r → (y.service.answer r).1 = .returned x → P.tells r x)
    (habandons : ∀ r, P.admits r → (y.service.answer r).1 = .abandoned → P.abandons) (t : Turn ι) :
    ((y.apply t).rest i).Follows P Q := by
  cases t with
  | other e => exact h
  | step j =>
    by_cases hij : i = j
    · subst hij
      have hsteps := y.steps_apply i
      generalize y.apply (.step i) = y' at hsteps ⊢
      cases hsteps with
      | ended => exact h
      | answered r next x hrest hanswer =>
        rw [hrest] at h
        change (Function.update y.rest i (next x) i).Follows P Q
        rw [Function.update_self]
        exact h.2 x (htells r x h.1 hanswer)
      | abandoned r next hrest hanswer =>
        rw [hrest] at h
        change (Function.update y.rest i .abandon i).Follows P Q
        rw [Function.update_self]
        exact habandons r h.1 hanswer
    · rw [rest_apply_of_ne hij]
      exact h

/-! ## Turns that cannot be seen -/

/-- The rest of a caller that does nothing but count events cannot be told from nothing: without its turns, the others
have the same to do, and the service answers every action alike. -/
theorem after_without (y y' : Interleaving β) (h : y.service.Alike .whole y'.service) (hfaultless : y.service.Faultless)
    (hi : (y.rest i).Follows Scope.none.protocol fun _ => True) (hrest : ∀ j, j ≠ i → y'.rest j = y.rest j)
    {turns : List (Turn ι)} (hturns : ∀ t ∈ turns, t.IsOrderly) :
    (y.after turns).service.Alike .whole (y'.after (turns.filter fun t => !t.isOf i)).service ∧
      ∀ j, j ≠ i → (y'.after (turns.filter fun t => !t.isOf i)).rest j = (y.after turns).rest j := by
  induction turns generalizing y y' with
  | nil => exact ⟨h, hrest⟩
  | cons t rest ih =>
    have ht := hturns t List.mem_cons_self
    have hturns' : ∀ t ∈ rest, t.IsOrderly := fun t' ht' => hturns t' (List.mem_cons_of_mem _ ht')
    obtain ⟨m, m', hm, hm', -⟩ := h.engine
    have hi' : ((y.apply t).rest i).Follows Scope.none.protocol fun _ => True :=
      follows_apply hi (fun r x _ => Service.answer_tells hm r x) (fun _ _ _ => trivial) t
    cases t with
    | other e =>
      refine ih _ _ (h.apply ht.2) ?_ hi' hrest hturns'
      exact hfaultless.apply ht.1
    | step j =>
      by_cases hji : j = i
      · subst hji
        rw [List.filter_cons_of_neg (by simp [Turn.isOf])]
        refine ih _ _ (h.step_apart hfaultless Scope.whole_apart_none hi) (hfaultless.step _) hi' (fun k hk => ?_)
          hturns'
        rw [hrest k hk]
        exact (rest_apply_of_ne hk).symm
      · rw [List.filter_cons_of_pos (by simp [Turn.isOf, hji])]
        have hj : y'.rest j = y.rest j := hrest j hji
        obtain ⟨hstep, hafter⟩ := h.step (Scope.follows_whole (y.rest j))
        have hafter' : (y.apply (.step j)).service.Alike .whole (y'.apply (.step j)).service := by
          change (y.service.step (y.rest j)).2.Alike .whole (y'.service.step (y'.rest j)).2
          rw [hj]
          exact hafter
        refine ih _ _ hafter' (hfaultless.step _) hi' (fun k hk => ?_) hturns'
        by_cases hkj : k = j
        · subst hkj
          rw [rest_apply_self, rest_apply_self, hj, hstep]
        · rw [rest_apply_of_ne hkj, rest_apply_of_ne hkj, hrest k hk]

end Interleaving

/-- As far as it is about keys that satisfy a condition, an answer is told by what happened before: a take tells whether
the key was kept, and a scan lists the keys under its text that were kept. -/
def Occurrence.Told (K : String → Prop) (before : List (Occurrence ι)) (o : Occurrence ι) : Prop :=
  match o.exchange with
  | ⟨.engine (.take key), x⟩ =>
    K key → ∃ taken, x = .ok taken ∧ (taken = true ↔ Occurrence.entries.Keeps o.clocks.monotonic key before)
  | ⟨.engine (.keys stem), x⟩ =>
    ∃ keys : List String, x = .ok keys ∧ keys.Nodup ∧ ∀ key, K key →
      (key ∈ keys ↔ startsWith stem key = true ∧ Occurrence.entries.Keeps o.clocks.monotonic key before)
  | _ => True

theorem Service.Recorded.told {s : Service} {past : List (Occurrence ι)} {i : ι} {r : Request} {x : r.Answer}
    {K : String → Prop} (h : s.Recorded K past) (hx : (s.answer r).1 = .returned x) :
    Occurrence.Told K past ⟨i, s.clocks, ⟨r, x⟩⟩ := by
  obtain ⟨m, hcalm, hmirrors⟩ := h
  cases r with
  | engine c =>
    cases c with
    | take key =>
      rw [(hcalm.answer_engine (c := .take key) nofun).1] at hx
      cases hx
      exact fun hkey => ⟨_, rfl, hmirrors key _ hkey (Nat.le_refl _)⟩
    | keys stem =>
      rw [(hcalm.answer_engine (c := .keys stem) nofun).1] at hx
      cases hx
      refine ⟨_, rfl, m.nodup_keys_liveUnder s.clocks.monotonic stem, fun key hkey => ?_⟩
      rw [Memory.mem_keys_liveUnder]
      refine and_congr_right fun _ => ?_
      rw [← Option.isSome_iff_exists, hmirrors key _ hkey (Nat.le_refl _)]
    | _ => trivial
  | _ => trivial

namespace Interleaving

variable {y : Interleaving β} {K : String → Prop} {A : ι → Request → Prop}

/-- Over a calm service, every caller keeps to the requests that it may make, and the past tells the live keys and the
answers, as far as they are about keys that satisfy a condition. -/
structure Sound (K : String → Prop) (A : ι → Request → Prop) (y : Interleaving β) : Prop where
  recorded : y.service.Recorded K y.past
  follows : ∀ i, (y.rest i).Follows (.asking (A i)) fun _ => True
  admitted : ∀ o ∈ y.past, A o.caller o.exchange.request
  told : ∀ before o, before ++ [o] <+: y.past → o.Told K before
  ordered : y.past.Pairwise fun o o' => o.clocks.monotonic ≤ o'.clocks.monotonic
  earlier : ∀ o ∈ y.past, o.clocks.monotonic ≤ y.service.clocks.monotonic

namespace Sound

/-- Before any request has been made, over an engine that holds none of the keys. -/
theorem start {s : Service} {m : Memory} {programs : (i : ι) → Action (β i)} (h : s.Calm m)
    (hnone : ∀ key, K key → m.entries.get? key = none)
    (hprograms : ∀ i, (programs i).Follows (.asking (A i)) fun _ => True) :
    (Interleaving.start s programs).Sound K A where
  recorded := ⟨m, h, .start hnone⟩
  follows := hprograms
  admitted _ ho := absurd ho List.not_mem_nil
  told before o h := absurd (List.prefix_nil.mp h) (by simp)
  ordered := .nil
  earlier _ ho := absurd ho List.not_mem_nil

variable [DecidableEq ι]

/-- Turns that are no requests. -/
theorem other {e : ServiceEvent} (h : y.Sound K A) (he : e.IsFaultless) (hcall : ∀ c, e ≠ .call c) :
    (y.apply (.other e)).Sound K A where
  recorded := h.recorded.apply he hcall
  follows := h.follows
  admitted := h.admitted
  told := h.told
  ordered := h.ordered
  earlier o ho := by
    obtain ⟨m, hcalm, -⟩ := h.recorded
    obtain ⟨-, -, hle, -⟩ := hcalm.apply he hcall
    exact Nat.le_trans (h.earlier o ho) hle

/-- Requests that are answered. -/
theorem answered {i : ι} {r : Request} {next : r.Answer → Action (β i)} {x : r.Answer} (h : y.Sound K A)
    (hclose : ¬A i (.engine .close)) (hrest : y.rest i = .ask r next)
    (hanswer : (y.service.answer r).1 = .returned x)
    (hfollows : ∀ j, (Function.update y.rest i (next x) j).Follows (.asking (A j)) fun _ => True) :
    Sound K A ⟨(y.service.answer r).2, Function.update y.rest i (next x),
      y.past ++ [⟨i, y.service.clocks, ⟨r, x⟩⟩]⟩ := by
  have hadmits : A i r := by
    have hi := h.follows i
    rw [hrest] at hi
    exact hi.1
  have hopen : r ≠ .engine .close := by
    rintro rfl
    exact hclose hadmits
  refine ⟨h.recorded.answered hopen hanswer, hfollows, fun o ho => ?_, fun before o hinitial => ?_, ?_, fun o ho => ?_⟩
  · rcases List.mem_append.mp ho with ho | ho
    · exact h.admitted o ho
    · obtain rfl := List.mem_singleton.mp ho
      exact hadmits
  · rcases List.prefix_concat_iff.mp hinitial with heq | hinitial
    · obtain ⟨rfl, hsame⟩ := List.append_inj' heq rfl
      obtain rfl := List.singleton_inj.mp hsame
      exact h.recorded.told hanswer
    · exact h.told before o hinitial
  · refine List.pairwise_append.mpr ⟨h.ordered, List.pairwise_singleton _ _, fun o ho o' ho' => ?_⟩
    obtain rfl := List.mem_singleton.mp ho'
    exact h.earlier o ho
  · change o.clocks.monotonic ≤ (y.service.answer r).2.clocks.monotonic
    rw [y.service.answer_clocks]
    rcases List.mem_append.mp ho with ho | ho
    · exact h.earlier o ho
    · obtain rfl := List.mem_singleton.mp ho
      exact Nat.le_refl _

theorem apply (hclose : ∀ i, ¬A i (.engine .close)) (h : y.Sound K A) (t : Turn ι) (ht : t.IsOrderly) :
    (y.apply t).Sound K A := by
  obtain ⟨m, hcalm, hmirrors⟩ := h.recorded
  have hfollows (j : ι) : ((y.apply t).rest j).Follows (.asking (A j)) fun _ => True :=
    follows_apply (h.follows j) (fun r x _ => Service.answer_tells hcalm.engine r x) (fun _ _ _ => trivial) t
  cases t with
  | other e => exact h.other ht.1 ht.2
  | step i =>
    have hsteps := y.steps_apply i
    generalize y.apply (.step i) = y' at hsteps hfollows ⊢
    cases hsteps with
    | ended => exact h
    | answered r next x hrest hanswer => exact h.answered (hclose i) hrest hanswer hfollows
    | abandoned r next hrest hanswer =>
      have hadmits : A i r := by
        have hi := h.follows i
        rw [hrest] at hi
        exact hi.1
      refine ⟨h.recorded.abandoned (fun heq => hclose i (heq ▸ hadmits)) hanswer, hfollows, h.admitted, h.told,
        h.ordered, fun o ho => ?_⟩
      change o.clocks.monotonic ≤ (y.service.answer r).2.clocks.monotonic
      rw [y.service.answer_clocks]
      exact h.earlier o ho

/-- Whatever the schedule. -/
theorem after (hclose : ∀ i, ¬A i (.engine .close)) (h : y.Sound K A) {turns : List (Turn ι)}
    (hturns : ∀ t ∈ turns, t.IsOrderly) : (y.after turns).Sound K A :=
  after_keeps (fun _ t hy ht => hy.apply hclose t ht) hturns h

/-- Once a key has been written, it is told by what has happened since, whatever was in the engine before. -/
theorem of_written {o : Occurrence ι} {key : String} {d : Span} (hclose : ∀ i, ¬A i (.engine .close))
    (h : y.Sound K A) (hmakes : y.Makes o) (hwritten : o.exchange.written? = some (key, Cache.lifetime (some d))) :
    Sound (· = key) A { y.apply (.step o.caller) with past := [o] } := by
  have hsound := h.apply hclose (.step o.caller) trivial
  obtain ⟨m, hcalm, -⟩ := h.recorded
  obtain ⟨r, next, x, hrest, hanswer, ho⟩ := hmakes
  have hadmits : A o.caller r := by
    have hi := h.follows o.caller
    rw [hrest] at hi
    exact hi.1
  rw [apply_step_of_answered hrest hanswer] at hsound ⊢
  obtain ⟨i, clocks, e⟩ := o
  cases ho
  obtain ⟨value, hrequest⟩ := Exchange.request_of_written hwritten
  cases hrequest
  refine ⟨hcalm.recorded_of_put hanswer, hsound.follows, fun o ho => ?_, fun before o hinitial => ?_,
    List.pairwise_singleton _ _, fun o ho => ?_⟩
  · obtain rfl := List.mem_singleton.mp ho
    exact hadmits
  · obtain rfl := List.mem_singleton.mp (hinitial.subset (List.mem_append_right _ List.mem_cons_self))
    trivial
  · obtain rfl := List.mem_singleton.mp ho
    exact hsound.earlier _ (List.mem_append_right _ List.mem_cons_self)

/-- A key that has been written is told by the past, whatever was in the engine before. -/
theorem live?_iff_of_written {o : Occurrence ι} {key : String} {d : Span} {m : Memory}
    (hclose : ∀ i, ¬A i (.engine .close)) (h : y.Sound K A) (hstart : y.past = []) {turns : List (Turn ι)}
    (hturns : ∀ t ∈ turns, t.IsOrderly) (hm : (y.after turns).service.Calm m) (ho : o ∈ (y.after turns).past)
    (hwritten : o.exchange.written? = some (key, Cache.lifetime (some d))) :
    (m.live? (y.after turns).service.clocks.monotonic key).isSome = true ↔
      Occurrence.entries.Keeps (y.after turns).service.clocks.monotonic key (y.after turns).past := by
  obtain ⟨older, newer, hpast⟩ := List.append_of_mem ho
  obtain ⟨before, later, rfl, hbefore, hmakes⟩ := exists_turn hstart hpast
  have hsplit : y.after (before ++ .step o.caller :: later) =
      ((y.after before).apply (.step o.caller)).after later := after_append _ _ _
  have hmade : ((y.after before).apply (.step o.caller)).past = older ++ [o] := by
    obtain ⟨r, next, x, hrest, hanswer, heq⟩ := hmakes
    rw [apply_step_of_answered hrest hanswer, hbefore, ← heq]
  have hbefore' : (y.after before).Sound K A := h.after hclose fun t ht => hturns t (List.mem_append_left _ ht)
  -- From the turn of the write on, what happened is the write and all that came after it.
  have hsince : Sound (· = key) A
      { ((y.after before).apply (.step o.caller)).after later with past := o :: newer } := by
    have hlater : ∀ t ∈ later, t.IsOrderly := fun t ht =>
      hturns t (List.mem_append_right _ (List.mem_cons_of_mem _ ht))
    have hsound := (hbefore'.of_written hclose hmakes hwritten).after hclose hlater
    obtain ⟨added, hadded⟩ := ((y.after before).apply (.step o.caller)).after_past later
    have hnewer : added = newer := by
      have heq := congrArg Interleaving.past (hadded ((y.after before).apply (.step o.caller)).past)
      change (((y.after before).apply (.step o.caller)).after later).past = _ ++ added at heq
      rw [← hsplit, hpast, hmade, List.append_assoc] at heq
      exact (List.cons.inj (List.append_cancel_left heq)).2.symm
    rw [hadded [o], hnewer] at hsound
    exact hsound
  rw [hpast, Chronicle.keeps_append_of_writes (C := Occurrence.entries) hwritten, hsplit]
  rw [hsplit] at hm
  obtain ⟨m', hm', hmirrors⟩ := hsince.recorded
  obtain rfl : m' = m := Engine.memory.inj (hm'.engine.symm.trans hm.engine)
  exact hmirrors key _ rfl (Nat.le_refl _)

end Sound

end Interleaving

end Gatehouse
