import Gatehouse.Proofs.Keys.Separators
import Gatehouse.Proofs.Limiter.Count
import Gatehouse.Proofs.Service.Events

/-!
# Limiters that are apart

A limiter counts the live keys under its text, whoever wrote them. So whatever is done with one limiter leaves the
count of another as it is if neither text starts with the other, and only then (`count_isolated_iff`). Plain names and
ids keep different limiters apart (`apart_of_plain`); ids with colons or underscores need not (`count_not_isolated`).
-/

namespace Gatehouse

/-! ## Engines that agree under a text -/

namespace Memory

variable {m m' : Memory} {stem : String} {now : Nat}

/-- Two engines are both open or both closed, list in the same order, and have the same entries under a text. -/
structure AgreesUnder (stem : String) (m m' : Memory) : Prop where
  closed_eq : m'.closed = m.closed
  listing_eq : m'.listing = m.listing
  get?_eq : ∀ key, startsWith stem key = true → m'.entries.get? key = m.entries.get? key

theorem AgreesUnder.refl (m : Memory) : AgreesUnder stem m m := ⟨rfl, rfl, fun _ _ => rfl⟩

/-- Engines that agree under a text show the same live entries there. -/
theorem AgreesUnder.liveUnder_eq (h : AgreesUnder stem m m') : m'.liveUnder now stem = m.liveUnder now stem := by
  refine liveUnder_congr h.listing_eq fun key hkey => ?_
  unfold live?
  rw [h.get?_eq key hkey]

/-- A call that leaves the keys under a text alone. -/
def leaves (stem : String) : EngineCall → Prop
  | .put key _ _ | .delete key | .take key => startsWith stem key = false
  | .flush | .close => False
  | _ => True

theorem AgreesUnder.perform {c : EngineCall} (h : AgreesUnder stem m m') (hc : leaves stem c) :
    AgreesUnder stem m (m'.perform now c).2 := by
  have hne {key key' : String} (hkey : startsWith stem key = true) (hkey' : startsWith stem key' = false) :
      key ≠ key' := by
    rintro rfl
    rw [hkey] at hkey'
    cases hkey'
  have herase {key' : String} (hkey' : startsWith stem key' = false) :
      AgreesUnder stem m { m' with entries := m'.entries.erase key' } := by
    refine ⟨h.closed_eq, h.listing_eq, fun key hkey => ?_⟩
    rw [Table.get?_erase, if_neg (hne hkey hkey'), h.get?_eq key hkey]
  have hinsert {key' : String} (hkey' : startsWith stem key' = false) (e : Entry) :
      AgreesUnder stem m { m' with entries := m'.entries.insert key' e } := by
    refine ⟨h.closed_eq, h.listing_eq, fun key hkey => ?_⟩
    rw [Table.get?_insert, if_neg (hne hkey hkey'), h.get?_eq key hkey]
  have hbecomes := m'.becomes_perform now c
  generalize (m'.perform now c).2 = m₁ at hbecomes ⊢
  cases hbecomes with
  | same c => exact h
  | inserted key' value lifetime => exact hinsert hc _
  | deleted key' => exact herase hc
  | taken key' => exact herase hc
  | flushed => exact hc.elim
  | closed => exact hc.elim

/-- An engine with one entry, which never expires. -/
def single (key : String) : Memory :=
  { entries := Table.empty.insert key ⟨[], none⟩, closed := false, sweep := none }

theorem liveUnder_single {key : String} (h : startsWith stem key = true) :
    (single key).liveUnder now stem = [(key, ⟨[], none⟩)] := by
  refine List.filter_eq_self.mpr fun e he => ?_
  obtain rfl := List.mem_singleton.mp he
  rw [h]
  rfl

end Memory

/-! ## Texts that are apart -/

/-- Neither text starts with the other. -/
def Keys.Apart (stem stem' : String) : Prop := startsWith stem stem' = false ∧ startsWith stem' stem = false

/-- No key is under two texts that are apart. -/
theorem Keys.Apart.not_startsWith {stem stem' key : String} (h : Keys.Apart stem stem')
    (hkey : startsWith stem' key = true) : startsWith stem key = false := by
  cases hboth : startsWith stem key with
  | false => rfl
  | true =>
    rcases startsWith_total hboth hkey with hs | hs
    · rw [h.1] at hs
      cases hs
    · rw [h.2] at hs
      cases hs

namespace Limiter

variable {s : Service} {m : Memory} {space space' : String} {ids ids' : List String}

/-- Plain names and ids keep different limiters apart. -/
theorem apart_of_plain (h : Keys.Plain space ids) (h' : Keys.Plain space' ids')
    (hne : (space, ids) ≠ (space', ids')) (window window' : Span) :
    Keys.Apart (of space ids window).attemptStem (of space' ids' window').attemptStem := by
  have hfalse {a b : String} {x y : List String} (hx : Keys.Plain a x) (hy : Keys.Plain b y)
      (hxy : ¬(a = b ∧ x = y)) : startsWith (Keys.limiterStem a x ++ ":") (Keys.limiterStem b y ++ ":") = false := by
    cases hs : startsWith (Keys.limiterStem a x ++ ":") (Keys.limiterStem b y ++ ":") with
    | false => rfl
    | true =>
      rw [← String.append_empty (s := Keys.limiterStem b y ++ ":")] at hs
      exact absurd (Keys.eq_of_limiterStem_startsWith hx hy hs) hxy
  exact ⟨hfalse h h' fun heq => hne (Prod.ext heq.1 heq.2),
    hfalse h' h fun heq => hne (Prod.ext heq.1.symm heq.2.symm)⟩

/-! ## Isolation -/

/-- What a limiter keeps to so that the keys under a text are left alone. -/
def leaving (stem : String) (clocks : Clocks) : Discipline where
  calls := Memory.leaves stem
  records _ := True
  now := clocks.instant

theorem leaving_opens (stem : String) (clocks : Clocks) :
    (leaving stem clocks).Opens fun key => startsWith stem key = false := by
  refine ⟨fun _ => trivial, ?_⟩
  intro c key hc hkey
  cases c <;> cases hc <;> first | exact hkey | trivial

end Limiter

/-- A call is one of a limiter of some ids. -/
def ServiceCall.IsOn (space : String) (ids : List String) : ServiceCall → Prop
  | recordAttempt space' ids' _ | recordAttemptAt space' ids' _ _ | countAttempts space' ids' _
  | guardAttempts space' ids' _ _ | clearAttempts space' ids' _ => space' = space ∧ ids' = ids
  | _ => False

namespace Limiter

variable {s : Service} {m : Memory} {space space' : String} {ids ids' : List String} {stem : String}

/-- What is done with a limiter leaves the keys under a text alone from which its own text is apart. -/
theorem action_leaves {c : ServiceCall} {clocks : Clocks} (hc : c.IsOn space ids)
    (h : Keys.Apart stem (Keys.limiterStem space ids ++ ":")) :
    Abides (leaving stem clocks) c.action fun _ => True := by
  have hopens := leaving_opens stem clocks
  have hreaches (window : Span) : (of space ids window).Reaches fun key => startsWith stem key = false :=
    fun key hkey => h.not_startsWith hkey
  cases c with
  | recordAttempt space' ids' window =>
    obtain ⟨rfl, rfl⟩ := hc
    exact record_abides hopens (hreaches window)
  | recordAttemptAt space' ids' window second =>
    obtain ⟨rfl, rfl⟩ := hc
    exact recordAt_abides hopens (hreaches window) second
  | countAttempts space' ids' window => exact Abides.lift (count_within hopens)
  | guardAttempts space' ids' window limit => exact guard_abides hopens limit
  | clearAttempts space' ids' window =>
    obtain ⟨rfl, rfl⟩ := hc
    exact clear_abides hopens (hreaches window)
  | _ => exact hc.elim

/-- A service at a time whose engine has under a text the entries of another, and whose scans are all made. -/
structure Keeps (stem : String) (m : Memory) (clocks : Clocks) (s : Service) : Prop where
  clocks_eq : s.clocks = clocks
  engine : ∃ m', s.engine = .memory m' ∧ Memory.AgreesUnder stem m m'
  scans : s.engineFaults.fates .keys = []

theorem Keeps.apply {c : ServiceCall} {clocks : Clocks} (hs : Keeps stem m clocks s) (hc : c.IsOn space ids)
    (h : Keys.Apart stem (Keys.limiterStem space ids ++ ":")) : Keeps stem m clocks (s.apply (.call c)) := by
  have hkept := (Service.run_keeps (D := leaving stem clocks) (J := Memory.AgreesUnder stem m)
    (fun m' c hJ hc => hJ.perform hc) rfl (action_leaves hc h)
    ⟨hs.clocks_eq, hs.engine, fun _ _ => trivial⟩).1
  exact ⟨hkept.clocks_eq, hkept.engine, Service.run_fates hs.scans c.action.run⟩

theorem Keeps.after {calls : List ServiceCall} {clocks : Clocks} (hs : Keeps stem m clocks s)
    (hc : ∀ c ∈ calls, c.IsOn space ids) (h : Keys.Apart stem (Keys.limiterStem space ids ++ ":")) :
    Keeps stem m clocks (s.after (calls.map .call)) := by
  induction calls generalizing s with
  | nil => exact hs
  | cons c rest ih =>
    exact ih (hs.apply (hc c List.mem_cons_self) h) fun c' hc' => hc c' (List.mem_cons_of_mem _ hc')

/-- Whatever is done with a limiter whose text is apart leaves the count of another limiter as it is. -/
theorem count_eq_of_apart (l : Limiter) {calls : List ServiceCall} (hm : s.engine = .memory m)
    (hscan : s.engineFaults.fates .keys = []) (hc : ∀ c ∈ calls, c.IsOn space ids)
    (h : Keys.Apart l.attemptStem (Keys.limiterStem space ids ++ ":")) :
    ((s.after (calls.map .call)).run l.count).1 = (s.run l.count).1 := by
  have hstart : Keeps l.attemptStem m s.clocks s := ⟨rfl, ⟨m, hm, .refl m⟩, hscan⟩
  obtain ⟨hclocks, ⟨m', hm', hagrees⟩, hscan'⟩ := hstart.after hc h
  rw [run_count l hm' hscan', run_count l hm hscan, hclocks, hagrees.closed_eq, hagrees.liveUnder_eq]

/-! ## Where isolation ends -/

/-- A service over an engine in memory with one entry, which never expires. -/
def withEntry (key : String) : Service := Service.new ⟨0, 0⟩ (.memory (Memory.single key)) .empty fun _ => 0

theorem calm_withEntry (key : String) : (withEntry key).Calm (Memory.single key) := ⟨rfl, rfl, rfl, rfl⟩

/-- If one key is under the texts of two limiters, clearing the second changes the count of the first. -/
theorem count_ne_of_clear (l : Limiter) {key : String} {window : Span} (hkey : startsWith l.attemptStem key = true)
    (hkey' : startsWith (of space ids window).attemptStem key = true) :
    (((withEntry key).after [.call (.clearAttempts space ids window)]).run l.count).1 ≠
      ((withEntry key).run l.count).1 := by
  have hbefore : ((withEntry key).run l.count).1 = .returned 1 := by
    rw [run_count l (calm_withEntry key).engine rfl, Memory.liveUnder_single hkey]
    rfl
  have hafter : (((withEntry key).after [.call (.clearAttempts space ids window)]).run l.count).1 = .returned 0 := by
    obtain ⟨s', hrun, hclocks, hcalm⟩ := run_clear (of space ids window) (calm_withEntry key)
    have hs' : (withEntry key).after [.call (.clearAttempts space ids window)] = s' := congrArg Prod.snd hrun
    rw [hs', run_count l hcalm.engine (by rw [hcalm.engineFaults]; rfl), hclocks,
      (Memory.liveUnder_cleared ..).length_eq, Memory.liveUnder_single hkey, List.filter_cons, hkey']
    rfl
  rw [hbefore, hafter]
  exact fun heq => nomatch heq

/-- Two limiters are isolated just if their texts are apart. If neither text starts with the other, then whatever is
done with one limiter, in any state of the engine in memory, leaves the count of the other as it is. Otherwise there is
a state in which clearing the one changes the count of the other. -/
theorem count_isolated_iff (space : String) (ids : List String) (window : Span) (l : Limiter) :
    (∀ (s : Service) (m : Memory) (calls : List ServiceCall), s.engine = .memory m →
        s.engineFaults.fates .keys = [] → (∀ c ∈ calls, c.IsOn space ids) →
        ((s.after (calls.map .call)).run l.count).1 = (s.run l.count).1) ↔
      Keys.Apart l.attemptStem (of space ids window).attemptStem := by
  constructor
  · intro hisolated
    have hnever (key : String) (hkey : startsWith l.attemptStem key = true)
        (hkey' : startsWith (of space ids window).attemptStem key = true) : False := by
      refine count_ne_of_clear l hkey hkey' ?_
      refine hisolated (withEntry key) _ [.clearAttempts space ids window] rfl rfl fun c hc => ?_
      obtain rfl := List.mem_singleton.mp hc
      exact ⟨rfl, rfl⟩
    constructor
    · cases hs : startsWith l.attemptStem (of space ids window).attemptStem with
      | false => rfl
      | true => exact (hnever _ hs (startsWith_refl _)).elim
    · cases hs : startsWith (of space ids window).attemptStem l.attemptStem with
      | false => rfl
      | true => exact (hnever _ (startsWith_refl _) hs).elim
  · intro hapart s m calls hm hscan hcalls
    exact count_eq_of_apart l hm hscan hcalls hapart

/-- Two lists of ids of which an attempt for the second counts for the first, and is forgotten with it. -/
theorem count_not_isolated :
    let s := Service.new ⟨0, 0⟩ (.memory (Memory.start 0 none)) .empty fun _ => 0
    let recorded := s.after [.call (.recordAttempt "otp" ["fe80::1:2"] (Span.ofSeconds 60))]
    let cleared := recorded.after [.call (.clearAttempts "otp" ["fe80::1"] (Span.ofSeconds 60))]
    (s.run (of "otp" ["fe80::1"] (Span.ofSeconds 60)).count).1 = .returned 0 ∧
      (recorded.run (of "otp" ["fe80::1"] (Span.ofSeconds 60)).count).1 = .returned 1 ∧
      (recorded.run (of "otp" ["fe80::1:2"] (Span.ofSeconds 60)).count).1 = .returned 1 ∧
      (cleared.run (of "otp" ["fe80::1:2"] (Span.ofSeconds 60)).count).1 = .returned 0 := by
  decide +kernel

end Limiter

end Gatehouse
