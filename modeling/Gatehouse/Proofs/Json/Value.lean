import Gatehouse.Proofs.Json.Container
import Gatehouse.Proofs.Table

/-!
# Values are read back

A value without floating point numbers is read back if it does not nest more containers than are read. The scanner looks
at the first octet and then knows what kind of value there is; for containers it goes one level down.
-/

namespace Gatehouse.Json

namespace Value

/-- A value without floating point numbers, as it is read: integers fit a word, and members ascend by name. -/
inductive Plain : Value → Prop where
  | null : Plain .null
  | bool (b : Bool) : Plain (.bool b)
  | int {n : Int} (fits : Scanner.Fits n) : Plain (.number (.int n))
  | text (s : String) : Plain (.text s)
  | array {items : List Value} (plain : ∀ v ∈ items, Plain v) : Plain (.array items)
  | object {members : List (String × Value)} (ascending : members.Pairwise fun m m' => m.1 < m'.1)
      (plain : ∀ m ∈ members, Plain m.2) : Plain (.object members)

mutual

/-- The most containers within one another. -/
def depth : Value → Nat
  | .array items => depthItems items + 1
  | .object members => depthMembers members + 1
  | _ => 0

/-- The most containers within one another in any of the items. -/
def depthItems : List Value → Nat
  | [] => 0
  | v :: l => max v.depth (depthItems l)

/-- The most containers within one another in any of the members. -/
def depthMembers : List (String × Value) → Nat
  | [] => 0
  | (_, v) :: l => max v.depth (depthMembers l)

end

theorem depth_le_of_mem_items {v : Value} {l : List Value} (h : v ∈ l) : v.depth ≤ depthItems l := by
  induction l with
  | nil => exact absurd h List.not_mem_nil
  | cons w l ih =>
    rw [depthItems]
    rcases List.mem_cons.mp h with rfl | h
    · exact Nat.le_max_left _ _
    · exact Nat.le_trans (ih h) (Nat.le_max_right _ _)

theorem depth_le_of_mem_members {m : String × Value} {l : List (String × Value)} (h : m ∈ l) :
    m.2.depth ≤ depthMembers l := by
  induction l with
  | nil => exact absurd h List.not_mem_nil
  | cons m' l ih =>
    rw [depthMembers]
    rcases List.mem_cons.mp h with rfl | h
    · exact Nat.le_max_left _ _
    · exact Nat.le_trans (ih h) (Nat.le_max_right _ _)

/-- An item nests no more containers than the array. -/
theorem depth_item_le {items : List Value} {n : Nat} (hdepth : (array items).depth ≤ n) {v : Value} (h : v ∈ items) :
    v.depth ≤ n :=
  Nat.le_trans (depth_le_of_mem_items h) (Nat.le_of_succ_le hdepth)

/-- The value of a member nests no more containers than the object. -/
theorem depth_value_le {members : List (String × Value)} {n : Nat} (hdepth : (object members).depth ≤ n)
    {m : String × Value} (h : m ∈ members) : m.2.depth ≤ n :=
  Nat.le_trans (depth_le_of_mem_members h) (Nat.le_of_succ_le hdepth)

end Value

namespace Scanner

variable {α : Type}

/-! ## The kinds of values -/

section Dispatch

variable (ofWord : Value → α) (number text array object : Scanner α) (rest : Bytes)

theorem run_dispatch_null :
    (dispatch ofWord number text array object).run (write .null ++ rest) = .ok (ofWord .null, rest) := by
  change (dispatch ofWord number text array object).run (0x6E :: ([0x75, 0x6C, 0x6C] ++ rest)) = _
  rw [dispatch, run_opened (by decide), run_bind_ok (run_word _ rest)]
  rfl

theorem run_dispatch_bool (b : Bool) :
    (dispatch ofWord number text array object).run (write (.bool b) ++ rest) = .ok (ofWord (.bool b), rest) := by
  cases b with
  | true =>
    change (dispatch ofWord number text array object).run (0x74 :: ([0x72, 0x75, 0x65] ++ rest)) = _
    rw [dispatch, run_bind_ok (run_token (by decide) _), if_neg (by decide), if_pos rfl, run_bind_ok (run_advance _),
      List.tail_cons, run_bind_ok (run_word _ rest)]
    rfl
  | false =>
    change (dispatch ofWord number text array object).run (0x66 :: ([0x61, 0x6C, 0x73, 0x65] ++ rest)) = _
    rw [dispatch, run_bind_ok (run_token (by decide) _), if_neg (by decide), if_neg (by decide), if_pos rfl,
      run_bind_ok (run_advance _), List.tail_cons, run_bind_ok (run_word _ rest)]
    rfl

theorem run_dispatch_number {c : UInt8} (h : startsNumber c = true) :
    (dispatch ofWord number text array object).run (c :: rest) = number.run (c :: rest) := by
  have hword : c ≠ 0x6E ∧ c ≠ 0x74 ∧ c ≠ 0x66 := by
    refine ⟨?_, ?_, ?_⟩ <;>
    · rintro rfl
      exact absurd h (by decide)
  rw [dispatch, run_bind_ok (run_token (isSpace_of_startsNumber h) _), if_neg hword.1, if_neg hword.2.1,
    if_neg hword.2.2, if_pos h]

theorem run_dispatch_text : (dispatch ofWord number text array object).run (0x22 :: rest) = text.run rest := by
  rw [dispatch, run_bind_ok (run_token (by decide) _), if_neg (by decide), if_neg (by decide), if_neg (by decide),
    if_neg (by decide), if_pos rfl, run_bind_ok (run_advance _), List.tail_cons]

theorem run_dispatch_array : (dispatch ofWord number text array object).run (0x5B :: rest) = array.run rest := by
  rw [dispatch, run_bind_ok (run_token (by decide) _), if_neg (by decide), if_neg (by decide), if_neg (by decide),
    if_neg (by decide), if_neg (by decide), if_pos rfl, run_bind_ok (run_advance _), List.tail_cons]

theorem run_dispatch_object : (dispatch ofWord number text array object).run (0x7B :: rest) = object.run rest := by
  rw [dispatch, run_bind_ok (run_token (by decide) _), if_neg (by decide), if_neg (by decide), if_neg (by decide),
    if_neg (by decide), if_neg (by decide), if_neg (by decide), if_pos rfl, run_bind_ok (run_advance _),
    List.tail_cons]

end Dispatch

/-! ## Values of any shape -/

/-- A value that is read at no depth is read at every depth. -/
theorem takes_value_of_valueWith {v : Value} (h : ∀ array object, Takes (valueWith array object) (write v) v)
    (depth : Nat) : Takes (value depth) (write v) v := by
  cases depth with
  | zero => exact h _ _
  | succ depth => exact h _ _

/-- Members that are put into a table one after another. Each has a name, a value and what the value is written as. -/
theorem folds_insert {item : Scanner α} {l : List (String × α × Value)}
    (h : ∀ m ∈ l, Takes item (write m.2.2) m.2.1) (t : Table String α) :
    Folds (fun name t => do colon; return t.insert name (← item)) (l.map fun m => (m.1, m.2.2)) t
      ((l.map fun m => (m.1, m.2.1)).foldl (fun t e => t.insert e.1 e.2) t) := by
  induction l generalizing t with
  | nil => exact .nil t
  | cons m l ih =>
    have hvalue := ((h m List.mem_cons_self).map (t.insert m.1)).colon
    exact .cons hvalue (ih (fun m' hm' => h m' (List.mem_cons_of_mem _ hm')) _)

/-- An object is read as the table of its members, if their values are read back. -/
theorem takes_object {l : List (String × Value)} {depth : Nat} (h : ∀ m ∈ l, Takes (value depth) (write m.2) m.2) :
    Takes (value (depth + 1)) (write (.object l)) (.object (Table.ofList l).entries) := by
  intro rest hrest
  have hfolds := folds_insert (l := l.map fun m => (m.1, m.2, m.2)) (List.forall_mem_map.mpr h) Table.empty
  have hmap : (l.map fun m => (m.1, m.2, m.2)).map (fun m => (m.1, m.2.2)) = l :=
    List.map_map.trans (List.map_id l)
  have hmap' : (l.map fun m => (m.1, m.2, m.2)).map (fun m => (m.1, m.2.1)) = l :=
    List.map_map.trans (List.map_id l)
  rw [hmap, hmap'] at hfolds
  rw [write_object_append, value, valueWith, run_dispatch_object, run_bind_ok (hfolds.run_membersOf rest)]
  rfl

/-- A value without floating point numbers is read back. -/
theorem takes_value {v : Value} (h : v.Plain) {depth : Nat} (hdepth : v.depth ≤ depth) :
    Takes (value depth) (write v) v := by
  induction h generalizing depth with
  | null => exact takes_value_of_valueWith (fun _ _ rest _ => run_dispatch_null ..) depth
  | bool b => exact takes_value_of_valueWith (fun _ _ rest _ => run_dispatch_bool ..) depth
  | @int n fits =>
    refine takes_value_of_valueWith (fun array object rest hrest => ?_) depth
    obtain ⟨c, tail, hhead, hstarts, -⟩ := writeNumber_head n
    have hnumber := (takes_number fits).map Value.number rest hrest
    rw [hhead, List.cons_append] at hnumber
    rw [write, hhead, List.cons_append, valueWith, run_dispatch_number _ _ _ _ _ _ hstarts]
    exact hnumber
  | text s =>
    refine takes_value_of_valueWith (fun array object rest hrest => ?_) depth
    rw [write, writeText_append, valueWith, run_dispatch_text, run_bind_ok (run_text s rest)]
    rfl
  | @array items plain ih =>
    rw [Value.depth] at hdepth
    cases depth with
    | zero => exact absurd hdepth (Nat.not_succ_le_zero _)
    | succ depth =>
      intro rest hrest
      have hitems := run_itemsOf (List.forall₂_same.mpr fun v hv => ih v hv
        (Nat.le_trans (Value.depth_le_of_mem_items hv) (Nat.le_of_succ_le_succ hdepth))) rest
      rw [write_array_append, value, valueWith, run_dispatch_array, run_bind_ok hitems]
      rfl
  | @object members ascending plain ih =>
    rw [Value.depth] at hdepth
    cases depth with
    | zero => exact absurd hdepth (Nat.not_succ_le_zero _)
    | succ depth =>
      have hobject := takes_object fun m hm => ih m hm
        (Nat.le_trans (Value.depth_le_of_mem_members hm) (Nat.le_of_succ_le_succ hdepth))
      rwa [Table.entries_ofList ascending] at hobject

end Scanner

end Gatehouse.Json
