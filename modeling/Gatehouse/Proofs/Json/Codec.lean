import Gatehouse.Proofs.Json.Value

/-!
# Types whose values are read back

What is read back of a type follows from what is read back of its parts. The fields of a record are read into a draft
one after another; none of them is in the draft before its turn.
-/

namespace Gatehouse.Json

open Scanner

/-- The scanner of its type takes the written form of a value as the value. -/
def ReadsBack {α : Type} [ToJson α] [FromJson α] (a : α) : Prop := Takes FromJson.scan (write (toJson a)) a

/-- Every form of a value that nests no more containers than are read is taken as the value. -/
def ComesBack {α : Type} [ToJson α] [Forms α] [FromJson α] (a : α) : Prop :=
  ∀ w, HasForm a w → w.depth ≤ depthLimit → Takes FromJson.scan (write w) a

/-- A value that is written in one way comes back if this form is read back. -/
theorem ReadsBack.comesBack {α : Type} [ToJson α] [FromJson α] {a : α} (h : ReadsBack a) : ComesBack a :=
  fun _ hform _ => hform ▸ h

/-! ## Words -/

theorem readsBack_unit (u : Unit) : ReadsBack u := by
  intro rest hrest
  change Scanner.null.run (0x6E :: ([0x75, 0x6C, 0x6C] ++ rest)) = _
  rw [Scanner.null, run_opened (by decide)]
  exact run_word _ rest

theorem readsBack_bool (b : Bool) : ReadsBack b := by
  intro rest hrest
  cases b with
  | true =>
    change Scanner.bool.run (0x74 :: ([0x72, 0x75, 0x65] ++ rest)) = _
    rw [Scanner.bool, run_opened (by decide), run_bind_ok (run_word _ rest)]
    rfl
  | false =>
    change Scanner.bool.run (0x66 :: ([0x61, 0x6C, 0x73, 0x65] ++ rest)) = _
    rw [Scanner.bool, run_bind_ok (run_token (by decide) _), if_neg (by decide), if_pos rfl,
      run_bind_ok (run_advance _), List.tail_cons, run_bind_ok (run_word _ rest)]
    rfl

/-! ## Integers and texts -/

/-- An integer type is read back if it is within the bounds that it is read between. -/
theorem takes_ofInteger {α : Type} (low high : Int) (hlow : -9223372036854775808 ≤ low)
    (hhigh : high < 18446744073709551616) {n : Int} (h : low ≤ n ∧ n ≤ high) (f : Int → α) :
    Takes (return f (← integer low high)) (write (.int n)) (f n) :=
  (takes_integer ⟨by omega, by omega⟩ h.1 h.2).map f

theorem readsBack_uint8 (n : UInt8) : ReadsBack n := by
  have hlt := n.toNat_lt
  have htakes := takes_ofInteger 0 255 (by decide) (by decide) (n := n.toNat) (by omega)
    fun n => UInt8.ofNat n.toNat
  rw [Int.toNat_natCast, UInt8.ofNat_toNat] at htakes
  exact htakes

theorem readsBack_uint64 (n : UInt64) : ReadsBack n := by
  have hlt := n.toNat_lt
  have htakes := takes_ofInteger 0 18446744073709551615 (by decide) (by decide) (n := n.toNat)
    (by omega) fun n => UInt64.ofNat n.toNat
  rw [Int.toNat_natCast, UInt64.ofNat_toNat] at htakes
  exact htakes

theorem readsBack_int32 (n : Int32) : ReadsBack n := by
  have hlow := n.le_toInt
  have hhigh := n.toInt_lt
  have htakes := takes_ofInteger (-2147483648) 2147483647 (by decide) (by decide) (n := n.toInt)
    (by omega) Int32.ofInt
  rw [Int32.ofInt_toInt] at htakes
  exact htakes

theorem readsBack_int64 (n : Int64) : ReadsBack n := by
  have hlow := n.le_toInt
  have hhigh := n.toInt_lt
  have htakes := takes_ofInteger (-9223372036854775808) 9223372036854775807 (by decide) (by decide)
    (n := n.toInt) (by omega) Int64.ofInt
  rw [Int64.ofInt_toInt] at htakes
  exact htakes

theorem readsBack_string (s : String) : ReadsBack s := fun rest _ => run_string s rest

/-! ## Containers -/

section Containers

variable {α : Type}

/-- A list is taken if its items are, each in a form of its own. -/
theorem takes_list {item : Scanner α} {items : List (α × Value)} (h : ∀ i ∈ items, Takes item (write i.2) i.1) :
    Takes (list item) (write (.array (items.map Prod.snd))) (items.map Prod.fst) := by
  intro rest hrest
  have hitems : List.Forall₂ (fun v a => Takes item (write v) a) (items.map Prod.snd) (items.map Prod.fst) :=
    List.forall₂_map_left_iff.mpr (List.forall₂_map_right_iff.mpr (List.forall₂_same.mpr h))
  rw [write_array_append, list, run_opened (by decide), run_itemsOf hitems rest]

/-- The table of some members is taken, in whatever order they are written. -/
theorem takes_table {item : Scanner α} {members : List (String × α × Value)}
    (h : ∀ m ∈ members, Takes item (write m.2.2) m.2.1) :
    Takes (table item) (write (.object (members.map fun m => (m.1, m.2.2))))
      (Table.ofList (members.map fun m => (m.1, m.2.1))) := by
  intro rest hrest
  rw [write_object_append, table, run_opened (by decide)]
  exact (folds_insert h Table.empty).run_membersOf rest

theorem takes_none (item : Scanner α) : Takes (option item) (write .null) none := by
  intro rest _
  change (option item).run (0x6E :: ([0x75, 0x6C, 0x6C] ++ rest)) = _
  rw [option, run_bind_ok (run_blanks (by decide) _), run_bind_ok (run_peek _), if_pos (List.head?_cons ..),
    run_bind_ok (run_advance _), List.tail_cons, run_bind_ok (run_word _ rest)]
  rfl

/-- What is there is taken if it is not written as nothing is. -/
theorem takes_some {item : Scanner α} {w : Value} {a : α} (h : Takes item (write w) a) (hnull : w ≠ .null) :
    Takes (option item) (write w) (some a) := by
  intro rest hrest
  obtain ⟨c, tail, hhead, hspace, -, hfirst⟩ := write_head w
  have hitem := h rest hrest
  have hpeek : (c :: (tail ++ rest)).head? ≠ some 0x6E := by
    rw [List.head?_cons, Ne, Option.some_inj]
    exact fun hc => hnull (hfirst hc)
  rw [hhead, List.cons_append] at hitem ⊢
  rw [option, run_bind_ok (run_blanks hspace _), run_bind_ok (run_peek _), if_neg hpeek, run_bind_ok hitem]
  rfl

variable [ToJson α] [FromJson α]

theorem readsBack_list {l : List α} (h : ∀ a ∈ l, ReadsBack a) : ReadsBack l := by
  have hitems : ∀ i ∈ l.map fun a => (a, toJson a), Takes FromJson.scan (write i.2) i.1 := List.forall_mem_map.mpr h
  have htakes := takes_list hitems
  rw [List.map_map, List.map_map, show l.map (Prod.fst ∘ fun a => (a, toJson a)) = l from List.map_id l] at htakes
  exact htakes

theorem readsBack_table {t : Table String α} (h : ∀ e ∈ t.entries, ReadsBack e.2) : ReadsBack t := by
  have hmembers : ∀ m ∈ t.entries.map fun e => (e.1, e.2, toJson e.2), Takes FromJson.scan (write m.2.2) m.2.1 :=
    List.forall_mem_map.mpr h
  have hentries : ((t.entries.map fun e => (e.1, e.2, toJson e.2)).map fun m => (m.1, m.2.1)).Perm t.entries :=
    .of_eq (List.map_map.trans (List.map_id _))
  have htakes := takes_table hmembers
  rw [Table.ofList_of_perm hentries, List.map_map] at htakes
  exact htakes

/-- Nothing is read back, and so is a value that is not itself written as nothing. -/
theorem readsBack_option {o : Option α} (h : ∀ a ∈ o, ReadsBack a ∧ toJson a ≠ .null) : ReadsBack o := by
  cases o with
  | none => exact takes_none FromJson.scan
  | some a => exact takes_some (h a rfl).1 (h a rfl).2

end Containers

section Forms

variable {α : Type} [ToJson α] [Forms α] [FromJson α]

theorem comesBack_list {l : List α} (h : ∀ a ∈ l, ComesBack a) : ComesBack l := by
  rintro _ ⟨items, rfl, rfl, hforms⟩ hdepth
  refine takes_list fun i hi => h i.1 (List.mem_map_of_mem hi) i.2 (hforms i hi) ?_
  exact Value.depth_item_le hdepth (List.mem_map_of_mem hi)

/-- A table does not hang on the order of its members. -/
theorem comesBack_table {t : Table String α} (h : ∀ e ∈ t.entries, ComesBack e.2) : ComesBack t := by
  rintro _ ⟨members, hmembers, rfl, hforms⟩ hdepth
  have htakes : ∀ m ∈ members, Takes FromJson.scan (write m.2.2) m.2.1 := by
    intro m hm
    have hvalue := Value.depth_value_le hdepth (List.mem_map_of_mem (f := fun m => (m.1, m.2.2)) hm)
    exact h (m.1, m.2.1) (hmembers.subset (List.mem_map_of_mem hm)) m.2.2 (hforms m hm) hvalue
  exact Table.ofList_of_perm hmembers ▸ takes_table htakes

theorem comesBack_option {o : Option α} (h : ∀ a ∈ o, ComesBack a ∧ ∀ w, HasForm a w → w ≠ .null) : ComesBack o := by
  intro w hform hdepth
  cases o with
  | none =>
    obtain rfl : w = .null := hform
    exact takes_none FromJson.scan
  | some a => exact takes_some ((h a rfl).1 w hform hdepth) ((h a rfl).2 w hform)

end Forms

/-! ## Named values and records -/

/-- A name that stands for a value is read back as the value. -/
theorem takes_choice {α : Type} {names : List (String × α)} {name : String} {a : α} (h : names.lookup name = some a) :
    Takes (choice names) (writeText name) a := by
  intro rest hrest
  rw [writeText_append, choice, run_opened (by decide), named, run_bind_ok (run_text name rest), h]
  rfl

section Records

variable {α β σ : Type} {fields : String → σ → Member σ}

/-- A field that the draft does not have yet is read into it. -/
theorem takes_memberInto {name : String} {draft : σ} {item : Scanner β} {store : β → σ} {w : Bytes} {b : β}
    (hfield : fields name draft = field none item store) (h : Takes item w b) :
    Takes (memberInto fields name draft) (0x3A :: w) (store b) := by
  have hknown : fields name draft = .known (return store (← item)) := hfield
  rw [memberInto, hknown]
  exact (h.map store).colon

/-- A field that is written next is read next. -/
theorem Scanner.Folds.field {name : String} {draft draft' : σ} {item : Scanner β} {store : β → σ} {v : Value} {b : β}
    {l : List (String × Value)} (hfield : fields name draft = Scanner.field none item store)
    (h : Takes item (write v) b) (hl : Folds (memberInto fields) l (store b) draft') :
    Folds (memberInto fields) ((name, v) :: l) draft draft' :=
  .cons (takes_memberInto hfield h) hl

/-- A record is read back if its members lead to a draft that is the record. -/
theorem takes_record {start draft : σ} {finish : σ → Option α} {places : Scanner α} {l : List (String × Value)} {a : α}
    (h : Folds (memberInto fields) l start draft) (hfinish : finish draft = some a) :
    Takes (record start fields finish places) (write (.object l)) a := by
  intro rest hrest
  rw [write_object_append, record, run_opened (by decide), run_bind_ok (h.run_membersOf rest), hfinish]
  rfl

end Records

end Gatehouse.Json
