import Gatehouse.Proofs.Server.Documented
import Gatehouse.Proofs.Table

/-!
# The key space does what a server is documented to do

Every command about a key is replied by the live entry that the key has. A server that shows the whole key space on both
pages of every scan is documented to do so, however often a scan repeats its keys.
-/

namespace Gatehouse

namespace Keyspace

variable {s : Keyspace} {now later : Nat} {key : Bytes}

theorem mem_liveKeys : key ∈ s.liveKeys now ↔ (s.live? now key).isSome = true := by
  have hlive : s.live? now key = (s.entries.filter fun _ e => isLive now e).get? key :=
    (Table.get?_filter s.entries (fun _ e => isLive now e) key).symm
  unfold liveKeys Table.keys
  rw [hlive, List.mem_map, Option.isSome_iff_exists]
  constructor
  · rintro ⟨⟨k, e⟩, hmem, rfl⟩
    exact ⟨e, (Table.mem_entries_iff _ k e).mp hmem⟩
  · rintro ⟨e, he⟩
    exact ⟨(key, e), (Table.mem_entries_iff _ key e).mpr he, rfl⟩

/-- What is live later is what is live now, without what has expired in between. -/
theorem live?_later (h : now ≤ later) : s.live? later key = (s.live? now key).filter (isLive later) := by
  unfold live?
  rw [Option.filter_filter]
  refine congrArg (fun p => (s.entries.get? key).filter p) (funext ?_)
  intro e
  unfold isLive
  cases e.deadline with
  | none => rfl
  | some d =>
    rw [Option.all_some, Option.all_some, Bool.eq_iff_iff, Bool.and_eq_true, decide_eq_true_eq, decide_eq_true_eq]
    omega

theorem live?_put {value : Bytes} {millis : Option Nat} (h : ∀ n ∈ millis, 0 < n) (s : Keyspace) (key : Bytes) :
    ({ s with entries := s.entries.insert key ⟨value, millis.map (now + ·)⟩ } : Keyspace).live? now =
      Command.put (s.live? now) key (some ⟨value, millis.map (now + ·)⟩) := by
  have hlive : isLive now ⟨value, millis.map (now + ·)⟩ = true := by
    cases millis with
    | none => rfl
    | some n => exact decide_eq_true (Nat.lt_add_of_pos_right (h n rfl))
  funext k
  unfold live? Command.put
  rw [Table.get?_insert]
  split
  · exact Option.filter_some_pos hlive
  · rfl

theorem live?_erase (s : Keyspace) (key : Bytes) :
    ({ s with entries := s.entries.erase key } : Keyspace).live? now = Command.put (s.live? now) key none := by
  funext k
  unfold live? Command.put
  rw [Table.get?_erase]
  split <;> rfl

/-- The key space replies to every command about keys as documented, and has its documented effect. -/
theorem execute_documented (s : Keyspace) {c : Command} (hc : c.Proper now) :
    (s.execute now c).1 = .reply (c.reply now (s.live? now)) ∧
      (s.execute now c).2.live? now = c.effect now (s.live? now) := by
  cases c with
  | set key value millis => exact ⟨rfl, live?_put (fun n hn => (hc n hn).1) s _⟩
  | del key => exact ⟨rfl, live?_erase s _⟩
  | auth user password => exact hc.elim
  | select space => exact hc.elim
  | scan cursor pattern count => exact hc.elim
  | _ => exact ⟨rfl, rfl⟩

/-! ## A server that repeats its keys -/

/-- The server that shows all keys on both of the two pages of a scan. -/
def repeating : Server Keyspace where
  answer nowMillis
    | .scan cursor pattern _, s =>
      (Server.scanReply (if cursor = 0 then 1 else 0)
        ((s.liveKeys nowMillis).filter (Glob.parse pattern).admits), s)
    | c, s => s.execute nowMillis c
  database nowMillis s := s.live? nowMillis
  pageBound _ := 2
  Sound _ := True

theorem repeating_documented : repeating.Documented where
  command := by
    intro now s c _ hc
    obtain ⟨hreply, heffect⟩ := s.execute_documented hc
    have hanswer : repeating.answer now c s = s.execute now c := by
      cases c with
      | scan cursor pattern count => exact hc.elim
      | _ => rfl
    exact ⟨_, hanswer.trans (Prod.ext hreply rfl), trivial, heffect⟩
  scan := by
    intro now s count _ pattern hcount
    let page := (s.liveKeys now).filter (Glob.parse pattern).admits
    have hlast : repeating.Walk now pattern count 1 s [page] s := .last rfl
    have hwalk : repeating.Walk now pattern count 0 s [page, page] s :=
      .more Nat.one_ne_zero (by decide) rfl hlast
    refine ⟨[page, page], s, hwalk, Nat.le_refl 2, trivial, rfl, ?_⟩
    intro key
    rw [List.flatten_cons, List.flatten_cons, List.flatten_nil, List.append_nil, List.mem_append, or_self,
      List.mem_filter, mem_liveKeys]
    exact and_comm
  expiry := fun _ hle => live?_later hle

end Keyspace

/-! ## The engine of a server -/

/-- The key space as a server, as long as no answers are laid down and no keys vanish. -/
def Keyspace.server : Server Keyspace where
  answer := Keyspace.answer
  database nowMillis s := s.live? nowMillis
  pageBound := Keyspace.scanBound
  Sound s := s.scripts = [] ∧ s.vanishing = []

/-- The engine of a server is a client of its key space. -/
theorem Remote.perform_eq (clocks : Clocks) (r : Remote) (c : EngineCall) :
    ((r.perform clocks.unixMillis c).1,
        (⟨(r.perform clocks.unixMillis c).2.client, (r.perform clocks.unixMillis c).2.isOpen,
          (r.perform clocks.unixMillis c).2.server⟩ : Session Keyspace)) =
      Keyspace.server.backend.perform clocks ⟨r.client, r.isOpen, r.server⟩ c := by
  obtain ⟨client, isOpen, server⟩ := r
  cases isOpen <;> rfl

end Gatehouse
