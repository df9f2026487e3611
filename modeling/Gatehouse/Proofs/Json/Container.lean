import Gatehouse.Proofs.Json.Number
import Gatehouse.Proofs.Json.Text
import Mathlib.Data.List.Forall2

/-!
# Arrays and objects are read back

The first octet of a written value is no blank and no closing bracket, so the scanners of arrays and objects know from
one octet whether there is another item. The items of an array are read back if each of them is. What an object is read
as depends on what each of its members does to the state that the members are folded into.
-/

namespace Gatehouse

namespace Binary64

/-- The characters that the numeral of a floating point number may start with. -/
def Leads (c : Char) : Prop := Digits.isDigit c = true ∨ c = '-' ∨ c = '.' ∨ c = 'e'

/-- A text that starts right after some digits starts right with them as well. -/
theorem leads_append {cs rest : List Char} (hcs : ∀ c ∈ cs, Digits.isDigit c = true)
    (hrest : ∃ c tail, rest = c :: tail ∧ Leads c) : ∃ c tail, cs ++ rest = c :: tail ∧ Leads c := by
  cases cs with
  | nil => exact hrest
  | cons c cs => exact ⟨c, cs ++ rest, rfl, .inl (hcs c List.mem_cons_self)⟩

theorem isDigit_of_mem_trimZeros {n : Nat} {c : Char} (h : c ∈ trimZeros (Digits.ofNat n)) :
    Digits.isDigit c = true := by
  have hmem := (List.dropWhile_sublist _).mem (List.mem_reverse.mp h)
  exact Digits.isDigit_of_mem_ofNat (List.mem_reverse.mp hmem)

/-- The text of a decimal starts with a digit, a point or the letter of an exponent. -/
theorem leads_write (style : Style) (digits : Nat) (e : Int) :
    ∃ c tail, style.write digits e = c :: tail ∧ Leads c := by
  have hdigits : ∀ c ∈ trimZeros (Digits.ofNat digits), Digits.isDigit c = true := fun c => isDigit_of_mem_trimZeros
  have hpoint : Leads '.' := .inr (.inr (.inl rfl))
  simp only [Style.write]
  split
  · exact ⟨'0', _, rfl, .inl (by decide)⟩
  · split
    · split
      · rw [List.append_assoc]
        refine leads_append hdigits (leads_append (fun c hc => ?_) ⟨'.', _, rfl, hpoint⟩)
        rw [List.eq_of_mem_replicate hc]
        decide
      · exact leads_append (fun c hc => hdigits c (List.mem_of_mem_take hc)) ⟨'.', _, rfl, hpoint⟩
    · rw [List.append_assoc]
      refine leads_append (fun c hc => hdigits c (List.mem_of_mem_take hc)) ?_
      split
      · exact ⟨'e', _, rfl, .inr (.inr (.inr rfl))⟩
      · exact ⟨'.', _, rfl, hpoint⟩

theorem leads_chars (x : Binary64) : ∃ c tail, x.chars = c :: tail ∧ Leads c := by
  simp only [chars]
  split
  · exact ⟨'-', _, rfl, .inr (.inl rfl)⟩
  · split
    · exact ⟨'0', _, rfl, .inl (by decide)⟩
    · exact leads_write json _ _

end Binary64

namespace Json

namespace Scanner

variable {α σ : Type}

/-! ## The first octet -/

/-- Octets that may be an item: they start with no blank and no closing bracket. -/
def Opens (w : Bytes) : Prop := ∃ c tail, w = c :: tail ∧ isSpace c = false ∧ c ≠ 0x5D

/-- What a numeral starts with. -/
theorem leads_octet {c : Char} (h : Binary64.Leads c) :
    isSpace (UInt8.ofNat c.toNat) = false ∧ UInt8.ofNat c.toNat ≠ 0x5D ∧ UInt8.ofNat c.toNat ≠ 0x6E := by
  rcases h with h | rfl | rfl | rfl
  · have hdigit := isDigit_ofNat_char h
    refine ⟨isSpace_of_startsNumber (by simp [startsNumber, hdigit]), ?_, ?_⟩
    · intro heq
      rw [heq] at hdigit
      exact absurd hdigit (by decide)
    · intro heq
      rw [heq] at hdigit
      exact absurd hdigit (by decide)
  · decide
  · decide
  · decide

/-- A written value starts with no blank and no closing bracket, and only `null` starts as `null` does. -/
theorem write_head (v : Value) :
    ∃ c tail, write v = c :: tail ∧ isSpace c = false ∧ c ≠ 0x5D ∧ (c = 0x6E → v = .null) := by
  cases v with
  | null => exact ⟨0x6E, _, rfl, by decide, by decide, fun _ => rfl⟩
  | bool b =>
    cases b with
    | true => exact ⟨0x74, _, rfl, by decide, by decide, fun h => absurd h (by decide)⟩
    | false => exact ⟨0x66, _, rfl, by decide, by decide, fun h => absurd h (by decide)⟩
  | number n =>
    cases n with
    | int n =>
      obtain ⟨c, tail, hhead, hstarts, -⟩ := writeNumber_head n
      refine ⟨c, tail, hhead, isSpace_of_startsNumber hstarts, ?_, ?_⟩
      · rintro rfl
        exact absurd hstarts (by decide)
      · rintro rfl
        exact absurd hstarts (by decide)
    | float x =>
      obtain ⟨c, tail, hhead, hleads⟩ := x.leads_chars
      obtain ⟨hspace, hbracket, hnull⟩ := leads_octet hleads
      exact ⟨UInt8.ofNat c.toNat, ascii tail, congrArg ascii hhead, hspace, hbracket, fun h => absurd h hnull⟩
  | text s => exact ⟨0x22, _, rfl, by decide, by decide, fun h => absurd h (by decide)⟩
  | array items => exact ⟨0x5B, _, rfl, by decide, by decide, fun h => absurd h (by decide)⟩
  | object members => exact ⟨0x7B, _, rfl, by decide, by decide, fun h => absurd h (by decide)⟩

theorem opens_write (v : Value) (rest : Bytes) : Opens (write v ++ rest) := by
  obtain ⟨c, tail, hhead, hspace, hbracket, -⟩ := write_head v
  exact ⟨c, tail ++ rest, by rw [hhead, List.cons_append], hspace, hbracket⟩

/-! ## Arrays -/

/-- The items of an array are the first one and then, each after a comma, the others. -/
theorem writeItems_cons (v : Value) (l : List Value) :
    writeItems (v :: l) = write v ++ l.flatMap fun w => 0x2C :: write w := by
  induction l generalizing v with
  | nil => rw [writeItems, List.flatMap_nil, List.append_nil]
  | cons w l ih => rw [writeItems, ih w, List.flatMap_cons, List.cons_append]

theorem write_array_append (items : List Value) (rest : Bytes) :
    write (.array items) ++ rest = 0x5B :: (writeItems items ++ 0x5D :: rest) := by
  simp [write]

/-- What comes after an item closes it: a comma, or what comes after all items. -/
theorem closes_flatMap {f : α → Bytes} (l : List α) {rest : Bytes} (h : Closes rest) :
    Closes ((l.flatMap fun a => 0x2C :: f a) ++ rest) := by
  cases l with
  | nil => exact h
  | cons a l => exact closes_cons (.inl rfl) _

theorem run_firstItem {w : Bytes} (h : Opens w) : firstItem.run w = .ok (true, w) := by
  obtain ⟨c, tail, rfl, hspace, hbracket⟩ := h
  rw [firstItem, run_bind_ok (run_token hspace tail), bne_iff_ne.mpr hbracket]
  rfl

theorem run_nextItem {w : Bytes} (h : Opens w) : nextItem.run (0x2C :: w) = .ok (true, w) := by
  obtain ⟨c, tail, rfl, hspace, hbracket⟩ := h
  rw [nextItem, run_bind_ok (run_token (by decide) _), if_neg (by decide), if_pos rfl, run_bind_ok (run_advance _),
    List.tail_cons, run_bind_ok (run_token hspace tail), if_neg hbracket]
  rfl

/-- Items after the first are read, and then those that come after them. -/
theorem run_items {item : Scanner α} {vs : List Value} {l : List α}
    (h : List.Forall₂ (fun v a => Takes item (write v) a) vs l) (fuel : Nat) {rest : Bytes} (hrest : Closes rest) :
    (items item nextItem (vs.length + fuel)).run ((vs.flatMap fun v => 0x2C :: write v) ++ rest) =
      (return l ++ (← items item nextItem fuel) : Scanner (List α)).run rest := by
  induction h with
  | nil =>
    rw [List.length_nil, Nat.zero_add]
    exact congrArg (StateT.run · rest) (bind_pure _).symm
  | @cons v a vs l hitem _ ih =>
    have hvalue := hitem _ (closes_flatMap (f := write) vs hrest)
    rw [List.flatMap_cons, List.cons_append, List.cons_append, List.append_assoc, List.length_cons,
      Nat.succ_add_eq_add_succ, Nat.add_succ, items, run_bind_ok (run_nextItem (opens_write v _)), if_pos rfl,
      run_bind_ok hvalue, run_bind_congr ih, bind_assoc]
    simp only [pure_bind, List.cons_append]

/-- The items of an array are read, and then those that come after them. -/
theorem run_itemsOf_cons {item : Scanner α} {v : Value} {a : α} {vs : List Value} {l : List α}
    (hitem : Takes item (write v) a) (h : List.Forall₂ (fun v a => Takes item (write v) a) vs l) {rest : Bytes}
    (hrest : Closes rest) :
    ∃ fuel, (itemsOf item).run (writeItems (v :: vs) ++ rest) =
      (return a :: l ++ (← items item nextItem (fuel + 1)) : Scanner (List α)).run rest := by
  have hvalue := hitem _ (closes_flatMap (f := write) vs hrest)
  obtain ⟨fuel, hfuel⟩ : ∃ fuel, (writeItems (v :: vs) ++ rest).length = vs.length + (fuel + 1) := by
    have hlength := length_le_length_flatMap (fun v => List.cons_ne_nil 0x2C (write v)) vs
    obtain ⟨c, tail, hhead, -⟩ := opens_write v []
    refine Nat.exists_eq_add_of_lt ?_
    rw [writeItems_cons, ← List.append_nil (write v), hhead, List.length_append, List.length_append, List.length_cons]
    omega
  refine ⟨fuel, ?_⟩
  rw [itemsOf, run_bind_ok (run_get _), hfuel, writeItems_cons, List.append_assoc, items,
    run_bind_ok (run_firstItem (opens_write v _)), if_pos rfl, run_bind_ok hvalue,
    run_bind_congr (run_items h _ hrest), bind_assoc]
  simp only [pure_bind, List.cons_append]

/-- An array is read after its opening bracket, if each of its items is read. -/
theorem run_itemsOf {item : Scanner α} {vs : List Value} {l : List α}
    (h : List.Forall₂ (fun v a => Takes item (write v) a) vs l) (rest : Bytes) :
    (itemsOf item).run (writeItems vs ++ 0x5D :: rest) = .ok (l, rest) := by
  cases h with
  | nil => rfl
  | cons hitem hl =>
    obtain ⟨fuel, hrun⟩ := run_itemsOf_cons hitem hl (closes_cons (.inr (.inl rfl)) rest)
    have hend : (items item nextItem (fuel + 1)).run (0x5D :: rest) = .ok ([], rest) := rfl
    rw [hrun, run_bind_ok hend, List.append_nil]
    rfl

/-! ## Objects -/

/-- The written form of a member. -/
def writeMember (m : String × Value) : Bytes := writeText m.1 ++ 0x3A :: write m.2

/-- The members of an object are the first one and then, each after a comma, the others. -/
theorem writeMembers_cons (m : String × Value) (l : List (String × Value)) :
    writeMembers (m :: l) = writeMember m ++ l.flatMap fun m => 0x2C :: writeMember m := by
  induction l generalizing m with
  | nil => rw [writeMembers, List.flatMap_nil, List.append_nil, writeMember]
  | cons m' l ih =>
    rw [writeMembers, ih m', List.flatMap_cons, List.cons_append]
    rfl

theorem write_object_append (members : List (String × Value)) (rest : Bytes) :
    write (.object members) ++ rest = 0x7B :: (writeMembers members ++ 0x7D :: rest) := by
  simp [write]

/-- Members, read one after another, lead from one state to another. -/
inductive Folds (member : String → σ → Scanner σ) : List (String × Value) → σ → σ → Prop where
  | nil (st : σ) : Folds member [] st st
  | cons {name : String} {v : Value} {l : List (String × Value)} {st st' st'' : σ} :
      Takes (member name st) (0x3A :: write v) st' → Folds member l st' st'' → Folds member ((name, v) :: l) st st''

theorem Folds.append {member : String → σ → Scanner σ} {l l' : List (String × Value)} {st st' st'' : σ}
    (h : Folds member l st st') (h' : Folds member l' st' st'') : Folds member (l ++ l') st st'' := by
  induction h with
  | nil => exact h'
  | cons hmember _ ih => exact .cons hmember (ih h')

theorem run_colon (rest : Bytes) : colon.run (0x3A :: rest) = .ok ((), rest) := by
  rw [colon, run_bind_ok (run_token (by decide) _), if_pos rfl]
  rfl

/-- The value of a member is read back after its colon. -/
theorem Takes.colon {item : Scanner α} {w : Bytes} {a : α} (h : Takes item w a) :
    Takes (do colon; item) (0x3A :: w) a := by
  intro rest hrest
  rw [List.cons_append, run_bind_ok (run_colon _)]
  exact h rest hrest

theorem run_firstName (s : String) (rest : Bytes) :
    firstName.run (writeText s ++ rest) = .ok (true, (Bytes.ofText s).flatMap escapeOctet ++ 0x22 :: rest) := by
  rw [writeText_append, firstName, run_bind_ok (run_token (by decide) _), if_neg (by decide), if_pos rfl,
    run_bind_ok (run_advance _)]
  rfl

theorem run_nextName (s : String) (rest : Bytes) :
    nextName.run (0x2C :: (writeText s ++ rest)) =
      .ok (true, (Bytes.ofText s).flatMap escapeOctet ++ 0x22 :: rest) := by
  rw [writeText_append, nextName, run_bind_ok (run_token (by decide) _), if_neg (by decide), if_pos rfl,
    run_bind_ok (run_advance _), List.tail_cons, run_opened (by decide)]
  rfl

/-- Members after the first are read, and then those that come after them. -/
theorem Folds.run_members {member : String → σ → Scanner σ} {l : List (String × Value)} {st st' : σ}
    (h : Folds member l st st') (fuel : Nat) {rest : Bytes} (hrest : Closes rest) :
    (members text member nextName (l.length + fuel) st).run ((l.flatMap fun m => 0x2C :: writeMember m) ++ rest) =
      (members text member nextName fuel st').run rest := by
  induction h with
  | nil st => rw [List.length_nil, Nat.zero_add, List.flatMap_nil, List.nil_append]
  | @cons name v l st st' st'' hmember _ ih =>
    have hvalue := hmember _ (closes_flatMap (f := writeMember) l hrest)
    rw [List.flatMap_cons, writeMember, List.cons_append, List.cons_append, List.append_assoc, List.append_assoc,
      List.length_cons, Nat.succ_add_eq_add_succ, Nat.add_succ, members, run_bind_ok (run_nextName name _),
      if_pos rfl, run_bind_ok (run_text name _), run_bind_ok hvalue]
    exact ih

/-- The members of an object are read, and then those that come after them. -/
theorem Folds.run_membersOf_cons {member : String → σ → Scanner σ} {name : String} {v : Value}
    {l : List (String × Value)} {st st' : σ} (h : Folds member ((name, v) :: l) st st') {rest : Bytes}
    (hrest : Closes rest) :
    ∃ fuel, (membersOf text member st).run (writeMembers ((name, v) :: l) ++ rest) =
      (members text member nextName (fuel + 1) st').run rest := by
  obtain ⟨⟩ | ⟨hmember, hl⟩ := h
  have hvalue := hmember _ (closes_flatMap (f := writeMember) l hrest)
  obtain ⟨fuel, hfuel⟩ : ∃ fuel, (writeMembers ((name, v) :: l) ++ rest).length = l.length + (fuel + 1) := by
    have hlength := length_le_length_flatMap (fun m => List.cons_ne_nil 0x2C (writeMember m)) l
    refine Nat.exists_eq_add_of_lt ?_
    rw [writeMembers_cons, writeMember, List.length_append, List.length_append, List.length_append, List.length_cons]
    omega
  refine ⟨fuel, ?_⟩
  rw [membersOf, run_bind_ok (run_get _), hfuel, writeMembers_cons, writeMember, List.append_assoc, List.append_assoc,
    members, run_bind_ok (run_firstName name _), if_pos rfl, run_bind_ok (run_text name _), run_bind_ok hvalue]
  exact hl.run_members _ hrest

/-- An object is read after its opening brace, if its members lead to a state. -/
theorem Folds.run_membersOf {member : String → σ → Scanner σ} {l : List (String × Value)} {st st' : σ}
    (h : Folds member l st st') (rest : Bytes) :
    (membersOf text member st).run (writeMembers l ++ 0x7D :: rest) = .ok (st', rest) := by
  cases l with
  | nil =>
    cases h
    rfl
  | cons m l =>
    obtain ⟨fuel, hrun⟩ := h.run_membersOf_cons (closes_cons (.inr (.inr rfl)) rest)
    exact hrun

end Scanner

end Json

end Gatehouse
