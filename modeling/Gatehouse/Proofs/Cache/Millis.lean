import Gatehouse.Proofs.Cache.Memory

/-!
# Deadlines in whole milliseconds

The embedded engine and the server keep deadlines on the wall clock, in milliseconds. While both clocks move together by
whole milliseconds, such a deadline is one on the forward clock, and does not move.
-/

namespace Gatehouse

/-! ## Clocks that move by whole milliseconds -/

/-- A span is a whole number of milliseconds. -/
def Span.IsWhole (d : Span) : Prop := d.nanos % 1000000 = 0

theorem Span.nanos_ofMillis (n : Nat) : (Span.ofMillis n).nanos = n * 1000000 := rfl

theorem Span.IsWhole.nanos_eq {d : Span} (h : d.IsWhole) : d.nanos = d.millis * 1000000 := by
  unfold Span.IsWhole at h
  unfold Span.millis
  omega

namespace Clocks

variable {clocks : Clocks} {d : Span}

theorem wall_advance (h : 0 ≤ clocks.wall) (d : Span) : 0 ≤ (clocks.advance d).wall :=
  Int.add_nonneg h (Int.natCast_nonneg d.nanos)

theorem unixMillis_advance (h : 0 ≤ clocks.wall) (hd : d.IsWhole) :
    (clocks.advance d).unixMillis = clocks.unixMillis + d.millis := by
  have hnanos := hd.nanos_eq
  unfold unixMillis Clocks.advance
  simp only
  omega

theorem unixMillis_le_advance (clocks : Clocks) (d : Span) : clocks.unixMillis ≤ (clocks.advance d).unixMillis := by
  unfold unixMillis Clocks.advance
  simp only
  omega

/-- The forward clock is in the first half of what it can show. -/
def IsEarly (clocks : Clocks) : Prop := clocks.monotonic ≤ secondLimit / 2 * 1000000000

/-- The forward clock has moved no further since it was early than the wall clock has since 1970. -/
def InPace (clocks : Clocks) : Prop :=
  clocks.monotonic ≤ clocks.unixMillis * 1000000 + secondLimit / 2 * 1000000000

theorem IsEarly.inPace (h : clocks.IsEarly) : clocks.InPace := Nat.le_trans h (Nat.le_add_left _ _)

theorem InPace.advance (h : clocks.InPace) (hclocks : 0 ≤ clocks.wall) (hd : d.IsWhole) :
    (clocks.advance d).InPace := by
  have hnanos := hd.nanos_eq
  have hmono : (clocks.advance d).monotonic = clocks.monotonic + d.nanos := rfl
  unfold InPace at h ⊢
  rw [unixMillis_advance hclocks hd, hmono]
  omega

/-- A deadline that fits a word on the wall clock exists on the forward clock. -/
theorem InPace.deadline_exists (h : clocks.InPace) (hd : d.IsWhole)
    (hword : clocks.unixMillis + d.millis < 18446744073709551616) :
    (Memory.deadline? clocks.monotonic d).isSome = true := by
  have hnanos := hd.nanos_eq
  have hfits : clocks.monotonic + d.nanos < secondLimit * 1000000000 := by
    unfold InPace secondLimit at h
    unfold secondLimit
    omega
  unfold Memory.deadline?
  rw [if_pos hfits]
  rfl

end Clocks

/-! ## Terms of whole milliseconds -/

/-- A lifetime is a number of whole milliseconds, and its deadline is below a limit on the wall clock. -/
structure Span.Fits (clocks : Clocks) (limit : Nat) (d : Span) : Prop where
  pos : 0 < d.nanos
  whole : d.IsWhole
  below : clocks.unixMillis + d.millis < limit

theorem Span.Fits.millis_pos {clocks : Clocks} {limit : Nat} {d : Span} (h : d.Fits clocks limit) : 0 < d.millis := by
  have hnanos := h.whole.nanos_eq
  have hpos := h.pos
  omega

/-- The milliseconds of a lifetime fit a word if its deadline does. -/
theorem Span.Fits.millisWord_eq {clocks : Clocks} {limit : Nat} {d : Span} (h : d.Fits clocks limit)
    (hlimit : limit ≤ 18446744073709551616) : d.millisWord = d.millis := by
  have hbelow := h.below
  unfold millisWord
  exact Nat.mod_eq_of_lt (by omega)

/-- Expirations are whole milliseconds with deadlines below a limit on the wall clock, and the clocks move by whole
milliseconds. -/
def Terms.whole (limit : Nat) : Terms where
  lifetime clocks d := d.IsWhole ∧ clocks.unixMillis + d.millis < limit
  advance d := d.IsWhole

theorem Terms.fits_of_admits {limit : Nat} {clocks : Clocks} {key : String} {b : Bytes} {lifetime : Option Span}
    (h : (Terms.whole limit).Admits clocks (.put key b lifetime)) : ∀ d ∈ lifetime, d.Fits clocks limit := by
  rintro d rfl
  obtain ⟨hpos, hwhole, hbelow⟩ := h key b d rfl
  exact ⟨hpos, hwhole, hbelow⟩

/-- In a run on such terms every deadline exists on the forward clock, if that starts early. -/
theorem Terms.met_memory {limit : Nat} (hlimit : limit ≤ 18446744073709551616) {clocks : Clocks}
    {steps : List CacheStep} (hclocks : 0 ≤ clocks.wall) (hearly : clocks.IsEarly)
    (h : (Terms.whole limit).Met clocks steps) : Memory.terms.Met clocks steps := by
  have hpace := hearly.inPace
  clear hearly
  induction steps generalizing clocks with
  | nil => trivial
  | cons e rest ih =>
    obtain ⟨hstep, hrest⟩ := h
    cases e with
    | call c =>
      refine ⟨?_, ih hclocks hrest hpace⟩
      cases c with
      | put α key value expiration =>
        cases expiration with
        | none => trivial
        | some d =>
          intro hne
          obtain ⟨hwhole, hmillis⟩ := hstep hne
          exact hpace.deadline_exists hwhole (Nat.lt_of_lt_of_le hmillis hlimit)
      | _ => trivial
    | advance d => exact ⟨trivial, ih (Clocks.wall_advance hclocks d) hrest (hpace.advance hclocks hstep)⟩
    | maintain w => exact ⟨trivial, ih hclocks hrest hpace⟩

/-! ## Deadlines on the forward clock -/

namespace Slot

/-- The slot of a value with a deadline in milliseconds on the wall clock. -/
def ofWall (clocks : Clocks) (value : Bytes) (deadline : Option Nat) : Slot :=
  ⟨value, deadline.map fun millis => clocks.monotonic + (Span.ofMillis (millis - clocks.unixMillis)).nanos⟩

variable {clocks : Clocks} {d : Span} {value : Bytes} {deadline : Option Nat}

theorem ofWall_none (clocks : Clocks) (value : Bytes) : ofWall clocks value none = ⟨value, none⟩ := rfl

theorem ofWall_some (clocks : Clocks) (value : Bytes) (millis : Nat) :
    ofWall clocks value (some millis) =
      ⟨value, some (clocks.monotonic + (Span.ofMillis (millis - clocks.unixMillis)).nanos)⟩ := rfl

theorem isPresent_ofWall :
    (ofWall clocks value deadline).isPresent clocks.monotonic =
      deadline.all fun millis => clocks.unixMillis < millis := by
  cases deadline with
  | none => rfl
  | some millis =>
    rw [Bool.eq_iff_iff, Option.all_some, decide_eq_true_eq, ofWall_some, isPresent_iff, Span.nanos_ofMillis]
    omega

theorem remaining_ofWall :
    (ofWall clocks value deadline).remaining clocks.monotonic =
      deadline.map fun millis => Span.ofMillis (millis - clocks.unixMillis) := by
  cases deadline with
  | none => rfl
  | some millis =>
    rw [ofWall_some]
    unfold remaining
    rw [Option.map_some, Option.map_some, Nat.add_sub_cancel_left]

/-- As long as its deadline has not come, a slot stays what it is while the clocks move. -/
theorem ofWall_advance (hclocks : 0 ≤ clocks.wall) (hd : d.IsWhole)
    (h : deadline.all (fun millis => (clocks.advance d).unixMillis < millis) = true) :
    ofWall (clocks.advance d) value deadline = ofWall clocks value deadline := by
  cases deadline with
  | none => rw [ofWall_none, ofWall_none]
  | some millis =>
    rw [Option.all_some, decide_eq_true_eq, Clocks.unixMillis_advance hclocks hd] at h
    have hmono : (clocks.advance d).monotonic = clocks.monotonic + d.nanos := rfl
    have hnanos := hd.nanos_eq
    rw [ofWall_some, ofWall_some, Clocks.unixMillis_advance hclocks hd, hmono, Span.nanos_ofMillis, Span.nanos_ofMillis]
    refine congrArg (fun n => (⟨value, some n⟩ : Slot)) ?_
    omega

/-- A slot is present after the clocks have moved exactly if its deadline on the wall clock has not come. -/
theorem isPresent_advance (hclocks : 0 ≤ clocks.wall) (hd : d.IsWhole) :
    (ofWall clocks value deadline).isPresent (clocks.advance d).monotonic =
      deadline.all fun millis => (clocks.advance d).unixMillis < millis := by
  cases deadline with
  | none => rfl
  | some millis =>
    have hmono : (clocks.advance d).monotonic = clocks.monotonic + d.nanos := rfl
    have hnanos := hd.nanos_eq
    rw [Bool.eq_iff_iff, Option.all_some, decide_eq_true_eq, Clocks.unixMillis_advance hclocks hd, ofWall_some,
      isPresent_iff, hmono, Span.nanos_ofMillis]
    omega

/-- What is present after the clocks have moved is the slot that was there before. -/
theorem filter_ofWall_advance (hclocks : 0 ≤ clocks.wall) (hd : d.IsWhole) :
    (some (ofWall (clocks.advance d) value deadline)).filter (isPresent (clocks.advance d).monotonic) =
      (some (ofWall clocks value deadline)).filter (isPresent (clocks.advance d).monotonic) := by
  rw [Option.filter_some, Option.filter_some, isPresent_ofWall, isPresent_advance hclocks hd]
  split
  · rename_i hlive
    exact congrArg some (ofWall_advance hclocks hd hlive)
  · rfl

/-- A value that is written now has the deadline of its lifetime. -/
theorem ofWall_written {limit : Nat} {lifetime : Option Span} (h : ∀ d ∈ lifetime, d.Fits clocks limit) :
    ofWall clocks value (lifetime.map fun d => clocks.unixMillis + d.millis) =
      ⟨value, lifetime.map fun d => clocks.monotonic + d.nanos⟩ := by
  cases lifetime with
  | none => rfl
  | some d =>
    rw [Option.map_some, Option.map_some, ofWall_some, Nat.add_sub_cancel_left, Span.nanos_ofMillis,
      (h d rfl).whole.nanos_eq]

end Slot

end Gatehouse
