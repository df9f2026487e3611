import Gatehouse.Proofs.Cache.Call

/-!
# The map that engines stand for

A plain map from keys to values with deadlines. Nothing is ever swept from it: a slot counts as present exactly while
the clock is before its deadline. An engine is right if it cannot be told from this map by its answers.
-/

namespace Gatehouse

open Json

/-- Why the value that a call puts has no stored form, if it has none. -/
def CacheCall.unencodable? : CacheCall → Option EncodeError
  | CacheCall.put α _ value _ =>
    match Encode.encode (α := α) value with
    | .ok _ => none
    | .error e => some e
  | _ => none

/-- The one key that a call is about, if there is one. -/
def CacheCall.key? : CacheCall → Option String
  | CacheCall.has key | CacheCall.get _ key | CacheCall.put _ key _ _ | CacheCall.delete key | CacheCall.take key
  | CacheCall.remaining key => some key
  | _ => none

/-- What a key maps to. -/
structure Slot where
  value : Bytes
  /-- The reading of the forward clock at which the slot is gone, absent for one that stays. -/
  deadline : Option Nat
deriving DecidableEq

/-- Whether the deadline of a slot is still to come. -/
def Slot.isPresent (now : Nat) (s : Slot) : Bool := s.deadline.all fun d => now < d

theorem Slot.isPresent_iff {now d : Nat} {b : Bytes} : Slot.isPresent now ⟨b, some d⟩ = true ↔ now < d := by
  unfold Slot.isPresent
  rw [Option.all_some, decide_eq_true_eq]

/-- How long a slot still has, if it is to go. -/
def Slot.remaining (now : Nat) (s : Slot) : Option Span := s.deadline.map fun d => ⟨d - now⟩

/-- In which order a scan lists its keys. -/
inductive ScanOrder where
  | any
  /-- By the octets of the keys, ascending. -/
  | ascending

/-- A list of keys is in an order. -/
def ScanOrder.Admits : ScanOrder → List String → Prop
  | any, _ => True
  | ascending, l => l.Pairwise fun a b => Bytes.ofText a < Bytes.ofText b

/-- A slot for each key that has one. -/
abbrev Contents := String → Option Slot

namespace Contents

variable (v : Contents) {now now' : Nat}

/-- The slots that are present at a time. -/
def presentAt (now : Nat) : Contents := fun k => (v k).filter (Slot.isPresent now)

/-- The contents with another slot, or none, under one key. -/
def set (key : String) (slot : Option Slot) : Contents := fun k => if k = key then slot else v k

/-- A list shows every slot whose key starts with a text exactly once. -/
structure Lists (o : ScanOrder) (stem : String) (l : List (String × Bytes)) : Prop where
  nodup : (l.map Prod.fst).Nodup
  order : o.Admits (l.map Prod.fst)
  mem_iff : ∀ k b, (k, b) ∈ l ↔ startsWith stem k = true ∧ ∃ slot, v k = some slot ∧ slot.value = b

/-- What an open engine with these contents replies to a call. -/
def Replies (o : ScanOrder) (now : Nat) : (c : EngineCall) → Except CacheError c.Reply → Prop
  | .has key, r => r = .ok (v key).isSome
  | .fetch key, r => r = match v key with
    | some slot => .ok slot.value
    | none => .error .keyNotFound
  | .put _ _ _, r => r = .ok ()
  | .delete _, r => r = .ok ()
  | .take key, r => r = .ok (v key).isSome
  | .keys stem, r => ∃ l, v.Lists o stem l ∧ r = .ok (l.map Prod.fst)
  | .entries stem, r => ∃ l, v.Lists o stem l ∧ r = .ok l
  | .remaining key, r => r = match v key with
    | some slot => .ok (slot.remaining now)
    | none => .error .keyNotFound
  | .flush, r => r = .ok ()
  | .close, r => r = .ok ()

/-- The contents after a call. -/
def after (now : Nat) : EngineCall → Contents
  | .put key b lifetime => v.set key (some ⟨b, lifetime.map fun d => now + d.nanos⟩)
  | .delete key | .take key => v.set key none
  | .flush => fun _ => none
  | _ => v

theorem presentAt_presentAt (h : now ≤ now') : (v.presentAt now).presentAt now' = v.presentAt now' := by
  funext k
  unfold presentAt
  rw [Option.filter_filter]
  refine congrArg (fun p => (v k).filter p) (funext ?_)
  intro s
  unfold Slot.isPresent
  cases s.deadline with
  | none => rfl
  | some d =>
    simp only [Option.all_some, Bool.and_eq_right_iff_imp, decide_eq_true_eq]
    omega

theorem presentAt_set (key : String) (slot : Option Slot) :
    (v.set key slot).presentAt now = (v.presentAt now).set key (slot.filter (Slot.isPresent now)) := by
  funext k
  unfold presentAt set
  split <;> rfl

/-- It makes no difference to a call whether slots that are gone stay in the contents, as long as what it writes is
present. -/
theorem presentAt_after {c : EngineCall} (hc : ∀ key b d, c = .put key b (some d) → 0 < d.nanos) :
    (v.after now c).presentAt now = (v.presentAt now).after now c := by
  cases c with
  | put key b lifetime =>
    refine (presentAt_set v key _).trans (congrArg _ ?_)
    refine Option.filter_some_pos ?_
    cases lifetime with
    | none => rfl
    | some d => exact decide_eq_true (Nat.lt_add_of_pos_right (hc key b d rfl))
  | delete key => exact presentAt_set v key none
  | take key => exact presentAt_set v key none
  | _ => rfl

end Contents

/-- The map that an engine stands for. -/
structure ExpiringMap where
  slots : Contents
  closed : Bool

namespace ExpiringMap

/-- An open map without slots. -/
def empty : ExpiringMap := ⟨fun _ => none, false⟩

/-- The deadline of what is put for an expiration: none if that is absent or zero. -/
def deadline (now : Nat) : Option Span → Option Nat
  | none => none
  | some d => if d.nanos = 0 then none else some (now + d.nanos)

variable (m : ExpiringMap)

/-- The slot of a key, if it is present. -/
def present? (now : Nat) (key : String) : Option Slot := m.slots.presentAt now key

open CacheCall in
/-- What an open map answers to a call of the cache. -/
def Replies (o : ScanOrder) (now : Nat) : (c : CacheCall) → Except CacheError c.Reply → Prop
  | has key, r => r = .ok (m.present? now key).isSome
  | CacheCall.get α key, r => r = match m.present? now key with
    | some slot => Cache.read (α := α) slot.value
    | none => .error .keyNotFound
  | put _ _ _ _, r => r = .ok ()
  | delete _, r => r = .ok ()
  | take key, r => r = .ok (m.present? now key).isSome
  | remaining key, r => r = match m.present? now key with
    | some slot => .ok (slot.remaining now)
    | none => .error .keyNotFound
  | keys stem, r => ∃ l, (m.slots.presentAt now).Lists o stem l ∧ r = .ok (l.map Prod.fst)
  | values α stem, r =>
    ∃ l, (m.slots.presentAt now).Lists o stem l ∧ r = (Cache.readEntries (α := α) l).map fun l => l.map Prod.snd
  | items α stem, r =>
    ∃ l, (m.slots.presentAt now).Lists o stem l ∧ r = (Cache.readEntries (α := α) l).map Table.ofList
  | flush, r => r = .ok ()
  | close, r => r = .ok ()

/-- What the map answers to a call of the cache. A value without a stored form is refused first of all; a closed map
refuses every call. -/
def Answers (o : ScanOrder) (now : Nat) (c : CacheCall) (r : Except CacheError c.Reply) : Prop :=
  match c.unencodable? with
  | some e => r = .error (.encoding e)
  | none => if m.closed then r = .error .engineClosed else m.Replies o now c r

open CacheCall in
/-- The map after a call of the cache, if it is open. -/
def update (now : Nat) : CacheCall → ExpiringMap
  | put α key value expiration =>
    match Encode.encode (α := α) value with
    | .ok b => { m with slots := m.slots.set key (some ⟨b, deadline now expiration⟩) }
    | .error _ => m
  | delete key | take key => { m with slots := m.slots.set key none }
  | flush => { m with slots := fun _ => none }
  | close => { m with closed := true }
  | _ => m

theorem present?_update_of_ne {now now' : Nat} {c : CacheCall} {key other : String} (h : c.key? = some key)
    (hne : other ≠ key) : (m.update now c).present? now' other = m.present? now' other := by
  have hset (slot : Option Slot) :
      (m.slots.set key slot).presentAt now' other = m.slots.presentAt now' other := by
    rw [Contents.presentAt_set]
    exact if_neg hne
  cases c with
  | put α key' value expiration =>
    cases h
    unfold present?
    simp only [update]
    split
    · exact hset _
    · rfl
  | delete key' =>
    cases h
    exact hset none
  | take key' =>
    cases h
    exact hset none
  | has => rfl
  | get => rfl
  | remaining => rfl
  | _ => cases h

/-- The map after a step of a run. -/
def apply (clocks : Clocks) : CacheStep → ExpiringMap
  | .call c => if m.closed then m else m.update clocks.monotonic c
  | _ => m

/-- A call about one key leaves every other key as it was, at every later time. -/
theorem present?_apply_of_ne {clocks : Clocks} {c : CacheCall} {key other : String} (h : c.key? = some key)
    (hne : other ≠ key) (now : Nat) : (m.apply clocks (.call c)).present? now other = m.present? now other := by
  unfold apply
  simp only
  split
  · rfl
  · exact m.present?_update_of_ne h hne

/-- The map after a run. -/
def after (clocks : Clocks) (m : ExpiringMap) : List CacheStep → ExpiringMap
  | [] => m
  | e :: rest => after (e.clocks clocks) (m.apply clocks e) rest

end ExpiringMap

end Gatehouse
