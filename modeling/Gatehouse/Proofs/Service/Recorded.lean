import Gatehouse.Proofs.Service.Chronicle
import Gatehouse.Proofs.Service.Exchanges

/-!
# What exchanges leave in the engine

Whoever makes the requests, the live keys of an open engine in memory are told by what has been asked and answered so
far: a key is live if it has been put, its lifetime is not over, and no request has removed it since (`Recorded`).
-/

namespace Gatehouse

/-! ## Exchanges with the engine -/

namespace Exchange

/-- The key that an exchange wrote, with the lifetime that it gave it. -/
def written? : Exchange → Option (String × Option Span)
  | ⟨.engine (.put key _ lifetime), .ok _⟩ => some (key, lifetime)
  | _ => none

/-- The key under which an exchange took a live entry. -/
def taken? : Exchange → Option String
  | ⟨.engine (.take key), .ok true⟩ => some key
  | _ => none

/-- The exchange removed a live entry under a key: it took or deleted it, put another one there that was expired at
once, or flushed the engine. -/
def Removes (key : String) : Exchange → Prop
  | ⟨.engine (.take key'), .ok taken⟩ => taken = true ∧ key' = key
  | ⟨.engine (.delete key'), .ok _⟩ => key' = key
  | ⟨.engine (.put key' _ (some d)), .ok _⟩ => d.nanos = 0 ∧ key' = key
  | ⟨.engine .flush, .ok _⟩ => True
  | _ => False

theorem request_of_written {e : Exchange} {key : String} {lifetime : Option Span}
    (h : e.written? = some (key, lifetime)) : ∃ value, e.request = .engine (.put key value lifetime) := by
  unfold written? at h
  split at h
  · cases h
    exact ⟨_, rfl⟩
  · cases h

end Exchange

/-- A request that a caller made and its answer, with the clocks at that time. -/
structure Occurrence (ι : Type) where
  caller : ι
  clocks : Clocks
  exchange : Exchange

/-- What the requests of callers did to the keys of the engine. -/
def Occurrence.entries {ι : Type} : Chronicle (Occurrence ι) where
  time o := o.clocks.monotonic
  writes o key d := o.exchange.written? = some (key, Cache.lifetime (some d))
  removes o key := o.exchange.Removes key

/-- Different spans are different lifetimes. -/
theorem Cache.lifetime_inj {d d' : Span} (h : Cache.lifetime (some d) = Cache.lifetime (some d')) : d = d' := by
  obtain ⟨n⟩ := d
  obtain ⟨n'⟩ := d'
  unfold Cache.lifetime at h
  rw [Option.filter_some, Option.filter_some] at h
  by_cases hn : n = 0 <;> by_cases hn' : n' = 0 <;> simp_all

/-- What lives for a time does not live for no time. -/
theorem Cache.nanos_ne_zero_of_lifetime {lifetime? : Option Span} {d : Span} (h : Cache.lifetime lifetime? = some d) :
    d.nanos ≠ 0 :=
  of_decide_eq_true (Option.filter_eq_some_iff.mp h).2

/-- What is put for a time or for ever is not removed at once. -/
theorem Exchange.not_removes_of_put {key key' : String} {value : Bytes} {d : Span} (x : Except CacheError Unit) :
    ¬Removes key' ⟨.engine (.put key value (Cache.lifetime (some d))), x⟩ := by
  cases x with
  | error e => cases Cache.lifetime (some d) <;> exact id
  | ok u =>
    cases hd : Cache.lifetime (some d) with
    | none => exact id
    | some d' => exact fun h => Cache.nanos_ne_zero_of_lifetime hd h.1

theorem Exchange.not_removes_of_written {e : Exchange} {key key' : String} {d : Span}
    (h : e.written? = some (key, Cache.lifetime (some d))) : ¬e.Removes key' := by
  obtain ⟨value, hrequest⟩ := request_of_written h
  obtain ⟨r, x⟩ := e
  cases hrequest
  exact not_removes_of_put x

/-- Of the keys that could be live, one is gone. -/
theorem Memory.live?_iff_of_gone {m m' : Memory} {t : Nat} (key : String) {key' : String}
    (h : m'.live? t key' = if key' = key then none else m.live? t key') :
    (m'.live? t key').isSome = true ↔ ¬key = key' ∧ (m.live? t key').isSome = true := by
  rw [h]
  by_cases hkey : key' = key
  · rw [if_pos hkey]
    exact ⟨fun h => (nomatch h), fun h => absurd hkey.symm h.1⟩
  · rw [if_neg hkey]
    exact (and_iff_right fun heq => hkey heq.symm).symm

/-! ## What an answer leaves -/

namespace Service

variable {ι : Type} {i : ι} {s s' : Service} {m m' : Memory} {past : List (Occurrence ι)} {e : Exchange}
  {K : String → Prop}

/-- A calm service in which those live keys that satisfy a condition are told by the past. -/
abbrev Recorded (K : String → Prop) (s : Service) (past : List (Occurrence ι)) : Prop :=
  s.Mirrors Occurrence.entries K past

theorem Calm.answer_engine (h : s.Calm m) {c : EngineCall} (hc : c ≠ .close) :
    (s.answer (.engine c)).1 = (m.respond s.clocks.monotonic c).1 ∧
      (s.answer (.engine c)).2.clocks = s.clocks ∧
      (s.answer (.engine c)).2.Calm (m.respond s.clocks.monotonic c).2 := by
  change (s.callEngine c).1 = _ ∧ (s.callEngine c).2.clocks = _ ∧ (s.callEngine c).2.Calm _
  rw [h.callEngine_eq]
  refine ⟨rfl, rfl, rfl, ?_, h.engineFaults, h.storeFaults⟩
  rw [Memory.closed_respond, h.isOpen, decide_eq_false hc]
  rfl

/-- A request to anything but the engine is answered, and leaves the engine as it is. -/
theorem Calm.answer_other (h : s.Calm m) {r : Request} (hr : ∀ c, r ≠ .engine c) :
    (∃ x, (s.answer r).1 = .returned x) ∧ (s.answer r).2.clocks = s.clocks ∧ (s.answer r).2.Calm m := by
  cases r with
  | engine c => exact absurd rfl (hr c)
  | store c =>
    change (∃ x, Outcome.returned (s.callStore c).1 = .returned x) ∧ (s.callStore c).2.clocks = _ ∧
      (s.callStore c).2.Calm m
    rw [h.callStore_eq]
    exact ⟨⟨_, rfl⟩, rfl, h.engine, h.isOpen, h.engineFaults, h.storeFaults⟩
  | _ => exact ⟨⟨_, rfl⟩, rfl, h.engine, h.isOpen, h.engineFaults, h.storeFaults⟩

/-- An exchange that neither wrote nor removed a key. -/
theorem recorded_of_ignored (hm : s'.Calm m) (hclocks : s'.clocks = s.clocks)
    (hmirrors : m.Mirrors Occurrence.entries K s.clocks.monotonic past) (hwrites : e.written? = none)
    (hremoves : ∀ key, ¬e.Removes key) : s'.Recorded K (past ++ [⟨i, s.clocks, e⟩]) := by
  refine ⟨m, hm, ?_⟩
  rw [hclocks]
  refine hmirrors.ignored (fun key d _ hw => ?_) fun key _ => hremoves key
  change e.written? = _ at hw
  rw [hwrites] at hw
  cases hw

/-- An exchange that removed keys. -/
theorem recorded_of_removed (hm : s'.Calm m') (hclocks : s'.clocks = s.clocks)
    (hmirrors : m.Mirrors Occurrence.entries K s.clocks.monotonic past)
    (hwrites : ∀ key d, e.written? ≠ some (key, Cache.lifetime (some d)))
    (hlive : ∀ key t, s.clocks.monotonic ≤ t →
      ((m'.live? t key).isSome = true ↔ ¬e.Removes key ∧ (m.live? t key).isSome = true)) :
    s'.Recorded K (past ++ [⟨i, s.clocks, e⟩]) := by
  refine ⟨m', hm, ?_⟩
  rw [hclocks]
  exact hmirrors.removed (fun key d _ => hwrites key d) fun key t _ ht => hlive key t ht

/-- An exchange that wrote a key. -/
theorem recorded_of_written {key : String} {value : Bytes} {lifetime : Option Span} {d : Span}
    (hm : s'.Calm { m with
      entries := m.entries.insert key ⟨value, lifetime.map fun d => s.clocks.monotonic + d.nanos⟩ })
    (hclocks : s'.clocks = s.clocks)
    (hmirrors : m.Mirrors Occurrence.entries K s.clocks.monotonic past)
    (hwrites : e.written? = some (key, lifetime)) (hlifetime : Cache.lifetime (some d) = lifetime)
    (hremoves : ∀ key, ¬e.Removes key) : s'.Recorded K (past ++ [⟨i, s.clocks, e⟩]) := by
  subst hlifetime
  refine ⟨_, hm, ?_⟩
  rw [hclocks]
  refine Memory.Mirrors.written (C := Occurrence.entries) (a := ⟨i, s.clocks, e⟩) hmirrors hwrites
    (fun key' d' hw => ?_) (fun key _ => hremoves key) value
  obtain ⟨hkey, hlife⟩ := Prod.mk.inj (Option.some.inj (hwrites.symm.trans hw))
  exact ⟨hkey.symm, (Cache.lifetime_inj hlife).symm⟩

/-- The engine is told by the past after a request to anything else. -/
theorem Recorded.answered_other (h : s.Recorded K past) {r : Request} (hr : ∀ c, r ≠ .engine c) (x : r.Answer) :
    (s.answer r).2.Recorded K (past ++ [⟨i, s.clocks, ⟨r, x⟩⟩]) := by
  obtain ⟨m, hcalm, hmirrors⟩ := h
  obtain ⟨-, hclocks, hafter⟩ := hcalm.answer_other hr
  cases r with
  | engine c => exact absurd rfl (hr c)
  | _ => exact recorded_of_ignored hafter hclocks hmirrors rfl fun _ => id

/-- The engine is told by the past after a key has been put. -/
theorem Recorded.answered_put (h : s.Recorded K past) {key : String} {value : Bytes} {lifetime : Option Span}
    {x : Except CacheError Unit} (hx : (s.answer (.engine (.put key value lifetime))).1 = .returned x) :
    (s.answer (.engine (.put key value lifetime))).2.Recorded K
      (past ++ [⟨i, s.clocks, ⟨.engine (.put key value lifetime), x⟩⟩]) := by
  obtain ⟨m, hcalm, hmirrors⟩ := h
  obtain ⟨hanswer, hclocks, hafter⟩ := hcalm.answer_engine (c := .put key value lifetime) nofun
  rw [hanswer] at hx
  by_cases hdeadline : ∀ d, lifetime = some d → (Memory.deadline? s.clocks.monotonic d).isSome = true
  · rw [Memory.respond_put hdeadline] at hx hafter
    cases hx
    cases lifetime with
    | none => exact recorded_of_written (d := ⟨0⟩) hafter hclocks hmirrors rfl rfl fun _ => id
    | some d =>
      by_cases hd : d.nanos = 0
      · -- What is put for no time at all is expired at once.
        refine recorded_of_removed hafter hclocks hmirrors (fun key' d' heq => ?_) fun key' t ht => ?_
        · exact Cache.nanos_ne_zero_of_lifetime (Prod.mk.inj (Option.some.inj heq)).2.symm hd
        · refine (Memory.live?_iff_of_gone key ?_).trans
            (and_congr_left fun _ => not_congr (and_iff_right hd).symm)
          have hexpired : ¬t < s.clocks.monotonic + d.nanos := by omega
          rw [Memory.live?_insert]
          exact if_congr Iff.rfl (Option.filter_some_neg (decide_eq_false hexpired)) rfl
      · have hlifetime : Cache.lifetime (some d) = some d := Option.filter_some_pos (by simpa using hd)
        exact recorded_of_written hafter hclocks hmirrors rfl hlifetime fun _ h => hd h.1
  · rw [Memory.respond_put_of_overflow hdeadline] at hx
    cases hx

/-- Once a key has been put, whether it is live is told by that alone, whatever was in the engine before. -/
theorem Calm.recorded_of_put (h : s.Calm m) {key : String} {value : Bytes} {d : Span} {x : Except CacheError Unit}
    (hx : (s.answer (.engine (.put key value (Cache.lifetime (some d))))).1 = .returned x) :
    (s.answer (.engine (.put key value (Cache.lifetime (some d))))).2.Recorded (· = key)
      [⟨i, s.clocks, ⟨.engine (.put key value (Cache.lifetime (some d))), x⟩⟩] := by
  obtain ⟨hanswer, hclocks, hafter⟩ := h.answer_engine (c := .put key value (Cache.lifetime (some d))) nofun
  rw [hanswer] at hx
  by_cases hdeadline : ∀ d', Cache.lifetime (some d) = some d' →
      (Memory.deadline? s.clocks.monotonic d').isSome = true
  · rw [Memory.respond_put hdeadline] at hx hafter
    cases hx
    -- It is as if the key had been put where it was not.
    have hmirrors : { m with entries := m.entries.erase key }.Mirrors
        (Occurrence.entries : Chronicle (Occurrence ι)) (· = key) s.clocks.monotonic [] :=
      .start fun key' hkey => by rw [Table.get?_erase, if_pos hkey]
    rw [← Table.insert_erase] at hafter
    exact recorded_of_written (m := { m with entries := m.entries.erase key }) hafter hclocks hmirrors rfl rfl
      fun _ => Exchange.not_removes_of_put (.ok ())
  · rw [Memory.respond_put_of_overflow hdeadline] at hx
    cases hx

/-- The engine is told by the past after every request that is answered, unless it is closed. -/
theorem Recorded.answered (h : s.Recorded K past) {r : Request} (hr : r ≠ .engine .close) {x : r.Answer}
    (hx : (s.answer r).1 = .returned x) : (s.answer r).2.Recorded K (past ++ [⟨i, s.clocks, ⟨r, x⟩⟩]) := by
  cases r with
  | engine c =>
    obtain ⟨m, hcalm, hmirrors⟩ := h
    have hc : c ≠ .close := fun heq => hr (congrArg Request.engine heq)
    obtain ⟨hanswer, hclocks, hafter⟩ := hcalm.answer_engine hc
    rw [hanswer] at hx
    cases c with
    | put key value lifetime => exact Recorded.answered_put ⟨m, hcalm, hmirrors⟩ (hanswer.trans hx)
    | delete key =>
      cases hx
      refine recorded_of_removed hafter hclocks hmirrors nofun fun key' t _ => ?_
      exact Memory.live?_iff_of_gone key (Memory.live?_erase key)
    | take key =>
      cases hx
      refine recorded_of_removed hafter hclocks hmirrors nofun fun key' t ht => ?_
      refine (Memory.live?_iff_of_gone key (Memory.live?_erase key)).trans (and_congr_left fun hlive => ?_)
      -- An entry that is live later, under the key that was taken, was live when it was taken.
      refine not_congr ⟨fun heq => ⟨?_, heq⟩, And.right⟩
      subst heq
      obtain ⟨e, he⟩ := Option.isSome_iff_exists.mp hlive
      exact Option.isSome_iff_exists.mpr ⟨e, Memory.live?_of_later ht he⟩
    | flush =>
      cases hx
      refine recorded_of_removed hafter hclocks hmirrors nofun fun key' t _ => ?_
      exact ⟨fun h => (nomatch h), fun h => absurd trivial h.1⟩
    | close => exact absurd rfl hc
    | _ => exact recorded_of_ignored hafter hclocks hmirrors rfl fun _ => id
  | _ => exact h.answered_other (by nofun) x

/-- A request that is abandoned leaves the engine as it was. -/
theorem Recorded.abandoned (h : s.Recorded K past) {r : Request} (hr : r ≠ .engine .close)
    (hx : (s.answer r).1 = .abandoned) : (s.answer r).2.Recorded K past := by
  obtain ⟨m, hcalm, hmirrors⟩ := h
  have hother (hother : ∀ c, r ≠ .engine c) : (s.answer r).2.Recorded K past := by
    obtain ⟨⟨x, hx'⟩, -⟩ := hcalm.answer_other hother
    rw [hx] at hx'
    cases hx'
  cases r with
  | engine c =>
    obtain ⟨hanswer, hclocks, hafter⟩ := hcalm.answer_engine fun heq => hr (congrArg Request.engine heq)
    rw [hanswer] at hx
    cases c with
    | put key value lifetime =>
      by_cases hdeadline : ∀ d, lifetime = some d → (Memory.deadline? s.clocks.monotonic d).isSome = true
      · rw [Memory.respond_put hdeadline] at hx
        cases hx
      · rw [Memory.respond_put_of_overflow hdeadline] at hafter
        exact ⟨m, hafter, by rw [hclocks]; exact hmirrors⟩
    | _ => cases hx
  | _ => exact hother (by nofun)

end Service

end Gatehouse
