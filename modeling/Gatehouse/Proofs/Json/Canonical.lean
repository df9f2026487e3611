import Gatehouse.Proofs.Json.Value

/-!
# What is read is in its one form

Whatever octets a value is read from, its integers fit a word, the members of its objects ascend by name, and it nests
no more containers than are read. So a value that was read holds no floating point number or is read back as it is
written.
-/

namespace Gatehouse.Json

namespace Value

/-- A value without floating point numbers. -/
inductive FloatFree : Value → Prop where
  | null : FloatFree .null
  | bool (b : Bool) : FloatFree (.bool b)
  | int (n : Int) : FloatFree (.number (.int n))
  | text (s : String) : FloatFree (.text s)
  | array {items : List Value} (free : ∀ v ∈ items, FloatFree v) : FloatFree (.array items)
  | object {members : List (String × Value)} (free : ∀ m ∈ members, FloatFree m.2) : FloatFree (.object members)

theorem depthItems_le {l : List Value} {n : Nat} (h : ∀ v ∈ l, v.depth ≤ n) : depthItems l ≤ n := by
  induction l with
  | nil => exact Nat.zero_le n
  | cons v l ih =>
    obtain ⟨hv, hl⟩ := List.forall_mem_cons.mp h
    rw [depthItems]
    exact Nat.max_le.mpr ⟨hv, ih hl⟩

theorem depthMembers_le {l : List (String × Value)} {n : Nat} (h : ∀ m ∈ l, m.2.depth ≤ n) : depthMembers l ≤ n := by
  induction l with
  | nil => exact Nat.zero_le n
  | cons m l ih =>
    obtain ⟨hm, hl⟩ := List.forall_mem_cons.mp h
    rw [depthMembers]
    exact Nat.max_le.mpr ⟨hm, ih hl⟩

/-- A value as it is read with at most so many containers within one another. -/
def Canonical (depth : Nat) (v : Value) : Prop := v.depth ≤ depth ∧ (v.FloatFree → v.Plain)

end Value

namespace Scanner

variable {α β σ : Type}

/-- Whatever a scanner takes has a property. -/
def Yields (scan : Scanner α) (P : α → Prop) : Prop := ∀ s a rest, scan.run s = .ok (a, rest) → P a

section Yields

variable {P : α → Prop} {Q : β → Prop} {scan : Scanner α} {next : α → Scanner β}

theorem yields_any (scan : Scanner α) : Yields scan fun _ => True := fun _ _ _ _ => trivial

theorem yields_pure {a : α} (h : P a) : Yields (pure a) P := by
  rintro s _ _ ⟨⟩
  exact h

theorem yields_fail (e : DecodeError) : Yields (fail e) P := by
  rintro s a rest ⟨⟩

theorem Yields.bind (h : Yields scan P) (hnext : ∀ a, P a → Yields (next a) Q) : Yields (scan >>= next) Q := by
  intro s b rest hrun
  cases hscan : scan.run s with
  | error e =>
    rw [run_bind_error hscan] at hrun
    cases hrun
  | ok r =>
    rw [run_bind_ok hscan] at hrun
    exact hnext r.1 (h s r.1 r.2 hscan) r.2 b rest hrun

/-- What comes after a scanner has the property, whatever that took. -/
theorem yields_after (h : ∀ a, Yields (next a) Q) : Yields (scan >>= next) Q := (yields_any scan).bind fun a _ => h a

/-- It makes no difference whether an octet is dropped before. -/
theorem yields_unless_advance {c : Prop} [Decidable c] (h : Yields scan P) :
    Yields (if c then do advance; scan else scan) P := by
  split
  · exact yields_after fun _ => h
  · exact h

/-- What is read from octets has the property. -/
theorem Yields.of_decode [FromJson α] (h : Yields FromJson.scan P) {b : Bytes} {a : α} (hread : decode b = .ok a) :
    P a := by
  change (FromJson.scan.run b >>= _) = _ at hread
  cases hscan : (FromJson.scan : Scanner α).run b with
  | error e =>
    rw [hscan] at hread
    cases hread
  | ok r =>
    rw [hscan] at hread
    have heq : r.1 = a := by
      change (if _ then _ else _) = _ at hread
      split at hread
      · exact Except.ok.inj hread
      · cases hread
    exact heq ▸ h b r.1 r.2 hscan

end Yields

/-! ## Numbers -/

/-- An integer of a word, or a floating point number. -/
def InWord : Number → Prop
  | .int n => Fits n
  | .float _ => True

theorem accumulate_lt {n : Nat} (h : n < wordLimit) (ds : List Nat) : (accumulate n ds).1 < wordLimit := by
  induction ds generalizing n with
  | nil => exact h
  | cons d ds ih =>
    rw [accumulate]
    split
    · next hnext => exact ih hnext
    · exact h

theorem yields_decimal (negative : Bool) (m : Nat) (e : Int) : Yields (decimal negative m e) InWord := by
  unfold decimal
  simp only
  split
  · split
    · exact yields_fail _
    · exact yields_pure trivial
  · split
    · exact yields_pure trivial
    · split
      · exact yields_pure trivial
      · split
        · exact yields_fail _
        · split
          · exact yields_pure trivial
          · exact yields_pure trivial

theorem yields_exponent (negative : Bool) (m : Nat) (e : Int) : Yields (exponent negative m e) InWord := by
  unfold exponent
  refine yields_after fun c => ?_
  refine yields_unless_advance (yields_after fun d => ?_)
  split
  · exact yields_fail _
  · split
    · refine yields_after fun ds => ?_
      simp only
      split
      · exact yields_decimal negative m _
      · split
        · exact yields_fail _
        · exact yields_pure trivial
    · exact yields_fail _

theorem yields_fraction (negative : Bool) (m : Nat) (e : Int) : Yields (fraction negative m e) InWord := by
  unfold fraction
  refine yields_after fun ds => ?_
  split
  · refine yields_after fun c => ?_
    split <;> exact yields_fail _
  · refine yields_after fun c => ?_
    split
    · exact yields_after fun _ => yields_exponent negative _ _
    · exact yields_decimal negative _ _

theorem fits_integerNumber {n : Nat} (h : n < wordLimit) (negative : Bool) : InWord (integerNumber negative n) := by
  simp only [wordLimit] at h
  unfold integerNumber
  split
  · split
    · trivial
    · simp only [InWord, Fits]
      omega
  · simp only [InWord, Fits]
    omega

theorem yields_magnitude (negative : Bool) : Yields (magnitude negative) InWord := by
  unfold magnitude
  refine yields_after fun ds => ?_
  split
  · refine yields_after fun c => ?_
    split <;> exact yields_fail _
  · exact yields_fail _
  · refine yields_after fun c => ?_
    split
    · exact yields_after fun _ => yields_fraction negative _ _
    · split
      · exact yields_after fun _ => yields_exponent negative _ _
      · split
        · exact yields_pure (fits_integerNumber (accumulate_lt (by decide) ds) negative)
        · exact yields_decimal negative _ _

theorem yields_number : Yields number InWord := by
  unfold number
  refine yields_after fun c => ?_
  split
  · exact yields_after fun _ => yields_magnitude true
  · exact yields_magnitude false

/-! ## Containers -/

theorem yields_items {P : α → Prop} {item : Scanner α} (h : Yields item P) (more : Scanner Bool) (fuel : Nat) :
    Yields (items item more fuel) fun l => ∀ a ∈ l, P a := by
  induction fuel generalizing more with
  | zero => exact yields_fail _
  | succ fuel ih =>
    unfold items
    refine yields_after fun another => ?_
    split
    · refine h.bind fun a ha => (ih nextItem).bind fun l hl => ?_
      exact yields_pure (List.forall_mem_cons.mpr ⟨ha, hl⟩)
    · exact yields_after fun _ => yields_pure fun a ha => absurd ha List.not_mem_nil

/-- What holds at first and is kept by every member holds after an object. -/
theorem yields_members {P : σ → Prop} {member : String → σ → Scanner σ}
    (h : ∀ name st, P st → Yields (member name st) P) (more : Scanner Bool) (fuel : Nat) {st : σ} (hst : P st) :
    Yields (members text member more fuel st) P := by
  induction fuel generalizing more st with
  | zero => exact yields_fail _
  | succ fuel ih =>
    unfold members
    refine yields_after fun another => ?_
    split
    · refine yields_after fun name => (h name st hst).bind fun st' hst' => ?_
      exact ih nextName hst'
    · exact yields_after fun _ => yields_pure hst

theorem yields_itemsOf {P : α → Prop} {item : Scanner α} (h : Yields item P) :
    Yields (itemsOf item) fun l => ∀ a ∈ l, P a :=
  yields_after fun _ => yields_items h firstItem _

theorem yields_membersOf {P : σ → Prop} {member : String → σ → Scanner σ}
    (h : ∀ name st, P st → Yields (member name st) P) {st : σ} (hst : P st) : Yields (membersOf text member st) P :=
  yields_after fun _ => yields_members h firstName _ hst

/-! ## Values -/

theorem yields_dispatch {P : α → Prop} {ofWord : Value → α} {number text array object : Scanner α}
    (hnull : P (ofWord .null)) (hbool : ∀ b, P (ofWord (.bool b))) (hnumber : Yields number P) (htext : Yields text P)
    (harray : Yields array P) (hobject : Yields object P) : Yields (dispatch ofWord number text array object) P := by
  unfold dispatch
  refine yields_after fun c => ?_
  split
  · exact yields_after fun _ => yields_after fun _ => yields_pure hnull
  · split
    · exact yields_after fun _ => yields_after fun _ => yields_pure (hbool true)
    · split
      · exact yields_after fun _ => yields_after fun _ => yields_pure (hbool false)
      · split
        · exact hnumber
        · split
          · exact yields_after fun _ => htext
          · split
            · exact yields_after fun _ => harray
            · split
              · exact yields_after fun _ => hobject
              · exact yields_fail _

theorem yields_valueWith {depth : Nat} {array object : Scanner Value} (harray : Yields array (Value.Canonical depth))
    (hobject : Yields object (Value.Canonical depth)) : Yields (valueWith array object) (Value.Canonical depth) := by
  refine yields_dispatch ⟨Nat.zero_le _, fun _ => .null⟩ (fun b => ⟨Nat.zero_le _, fun _ => .bool b⟩) ?_ ?_ harray
    hobject
  · refine yields_number.bind fun n hn => yields_pure ⟨Nat.zero_le _, fun hfree => ?_⟩
    cases hfree
    exact .int hn
  · exact yields_after fun s => yields_pure ⟨Nat.zero_le _, fun _ => .text s⟩

/-- All values of a table have a property. -/
def Holds (P : α → Prop) (t : Table String α) : Prop := ∀ e ∈ t.entries, P e.2

theorem Holds.insert {P : α → Prop} {t : Table String α} (h : Holds P t) (name : String) {a : α} (ha : P a) :
    Holds P (t.insert name a) := by
  intro e he
  rcases Table.mem_insertEntry he with rfl | he
  · exact ha
  · exact h e he

/-- Every value that is read is in its one form. -/
theorem yields_value (depth : Nat) : Yields (value depth) (Value.Canonical depth) := by
  induction depth with
  | zero => exact yields_valueWith (yields_fail _) (yields_fail _)
  | succ depth ih =>
    refine yields_valueWith ?_ ?_
    · refine (yields_itemsOf ih).bind fun l hl => yields_pure ⟨?_, fun hfree => ?_⟩
      · exact Nat.succ_le_succ (Value.depthItems_le fun v hv => (hl v hv).1)
      · obtain ⟨⟩ | ⟨⟩ | ⟨⟩ | ⟨⟩ | ⟨hfree⟩ := hfree
        exact .array fun v hv => (hl v hv).2 (hfree v hv)
    · have hmembers : Yields (membersOf text (fun name t => do colon; return t.insert name (← value depth))
          (Table.empty : Table String Value)) (Holds (Value.Canonical depth)) := by
        refine yields_membersOf (fun name t ht => ?_) fun e he => absurd he List.not_mem_nil
        exact yields_after fun _ => ih.bind fun v hv => yields_pure (ht.insert name hv)
      refine hmembers.bind fun t ht => yields_pure ⟨?_, fun hfree => ?_⟩
      · exact Nat.succ_le_succ (Value.depthMembers_le fun e he => (ht e he).1)
      · cases hfree with
        | object hfree => exact .object t.ascending fun e he => (ht e he).2 (hfree e he)

end Scanner

end Gatehouse.Json
