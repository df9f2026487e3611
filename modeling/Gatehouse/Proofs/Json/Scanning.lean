import Gatehouse.Json.Codec

/-!
# What scanners take

A scanner takes octets as a value if it takes exactly these off the front, whatever may come after a value. Scanners
that do their parts one after another take the octets of the parts one after another.
-/

namespace Gatehouse.Json.Scanner

variable {α β : Type}

/-- Items that are each written in at least one octet are no more than these octets. -/
theorem length_le_length_flatMap {f : α → List β} (h : ∀ a, f a ≠ []) (l : List α) :
    l.length ≤ (l.flatMap f).length := by
  induction l with
  | nil => exact Nat.le_refl 0
  | cons a l ih =>
    have hpos : 0 < (f a).length := List.length_pos_iff.mpr (h a)
    rw [List.flatMap_cons, List.length_append, List.length_cons]
    omega

/-! ## Steps of a scanner -/

/-- After a scanner has taken something, the next one goes on with what is left. -/
theorem run_bind_ok {scan : Scanner α} {next : α → Scanner β} {s rest : Bytes} {a : α}
    (h : scan.run s = .ok (a, rest)) : (scan >>= next).run s = (next a).run rest := by
  rw [StateT.run_bind, h]
  rfl

/-- After a scanner has failed, nothing goes on. -/
theorem run_bind_error {scan : Scanner α} {next : α → Scanner β} {s : Bytes} {e : DecodeError}
    (h : scan.run s = .error e) : (scan >>= next).run s = .error e := by
  rw [StateT.run_bind, h]
  rfl

/-- Two scanners that take the same go on with the same. -/
theorem run_bind_congr {scan scan' : Scanner α} {next : α → Scanner β} {s s' : Bytes} (h : scan.run s = scan'.run s') :
    (scan >>= next).run s = (scan' >>= next).run s' := by
  rw [StateT.run_bind, StateT.run_bind, h]

@[simp]
theorem run_get (s : Bytes) : (get : Scanner Bytes).run s = .ok (s, s) := rfl

@[simp]
theorem run_set (s s' : Bytes) : (set s' : Scanner PUnit).run s = .ok (⟨⟩, s') := rfl

@[simp]
theorem run_peek (s : Bytes) : peek.run s = .ok (s.head?, s) := rfl

@[simp]
theorem run_advance (s : Bytes) : advance.run s = .ok ((), s.tail) := rfl

/-- Blank octets end at an octet that is not blank. -/
theorem run_blanks {c : UInt8} (h : isSpace c = false) (s : Bytes) : blanks.run (c :: s) = .ok ((), c :: s) := by
  have hdrop : (c :: s).dropWhile isSpace = c :: s := by simp [h]
  change Except.ok ((), (c :: s).dropWhile isSpace) = _
  rw [hdrop]

theorem run_token {c : UInt8} (h : isSpace c = false) (s : Bytes) : token.run (c :: s) = .ok (c, c :: s) := by
  rw [token, run_bind_ok (run_blanks h s), run_bind_ok (run_peek _)]
  rfl

/-- The octet that opens a value is passed, and what follows it is taken. -/
theorem run_opened {c : UInt8} (h : isSpace c = false) (body : Scanner α) (other : UInt8 → Scanner α) (s : Bytes) :
    (do let c' ← token; if c' = c then do advance; body else other c').run (c :: s) = body.run s := by
  rw [run_bind_ok (run_token h s), if_pos rfl, run_bind_ok (run_advance _), List.tail_cons]

/-- A word is taken octet by octet. -/
theorem run_word (w rest : Bytes) : (word w).run (w ++ rest) = .ok ((), rest) := by
  induction w with
  | nil => rfl
  | cons c w ih =>
    rw [word, List.cons_append, run_bind_ok (run_get _)]
    simp only [if_true]
    exact ih

/-! ## Taking octets as a value -/

/-- What may come after a value: nothing, a comma, or the end of an array or an object. -/
def Closes (rest : Bytes) : Prop := ∀ c ∈ rest.head?, c = 0x2C ∨ c = 0x5D ∨ c = 0x7D

theorem closes_nil : Closes [] := by
  rintro c ⟨⟩

theorem closes_cons {c : UInt8} (h : c = 0x2C ∨ c = 0x5D ∨ c = 0x7D) (rest : Bytes) : Closes (c :: rest) := by
  rintro c ⟨⟩
  exact h

/-- A scanner takes octets as a value. -/
def Takes (scan : Scanner α) (w : Bytes) (a : α) : Prop := ∀ rest, Closes rest → scan.run (w ++ rest) = .ok (a, rest)

/-- What is done with a value does not change which octets it is taken from. -/
theorem Takes.map {scan : Scanner α} {w : Bytes} {a : α} (h : Takes scan w a) (f : α → β) :
    Takes (return f (← scan)) w (f a) := by
  intro rest hrest
  rw [run_bind_ok (h rest hrest)]
  rfl

/-- Octets that are taken as a value are read as the value. -/
theorem Takes.decodeWith_eq {scan : Scanner α} {w : Bytes} {a : α} (h : Takes scan w a) :
    decodeWith scan w = .ok a := by
  have hrun := h [] closes_nil
  rw [List.append_nil] at hrun
  change (scan.run w >>= _) = _
  rw [hrun]
  rfl

end Gatehouse.Json.Scanner
