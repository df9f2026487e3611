import Gatehouse.Proofs.Json.Legible

/-!
# Objects and values that are told from their beginnings

An object is cut short within the name of a member, within its value, or between members, and each of these is missed.
What has been read of it until then does not matter, so long as each member could be read after those before it.
-/

namespace Gatehouse.Json

namespace Scanner

variable {α σ : Type}

/-! ## Objects -/

/-- Members that are read one after another, each of which misses octets where it is cut short after its name. -/
inductive Chain (member : String → σ → Scanner σ) : List (String × Value) → σ → σ → Prop where
  | nil (st : σ) : Chain member [] st st
  | cons {name : String} {v : Value} {l : List (String × Value)} {st st' st'' : σ}
      (takes : Takes (member name st) (0x3A :: write v) st')
      (missed : ∀ p, Cut p (0x3A :: write v) → Lacks (member name st) p ∨ Exhausts (member name st) p)
      (tail : Chain member l st' st'') : Chain member ((name, v) :: l) st st''

section Chain

variable {member : String → σ → Scanner σ} {l l' : List (String × Value)} {st st' st'' : σ}

theorem Chain.folds (h : Chain member l st st') : Folds member l st st' := by
  induction h with
  | nil st => exact .nil st
  | cons takes _ _ ih => exact .cons takes ih

theorem Chain.append (h : Chain member l st st') (h' : Chain member l' st' st'') : Chain member (l ++ l') st st'' := by
  induction h with
  | nil => exact h'
  | cons takes missed _ ih => exact .cons takes missed (ih h')

/-- The value of a member that is cut short after the name, at the colon or later, is missed. -/
theorem Legible.missed_colon {item : Scanner α} {v : Value} (h : Legible item v) {p : Bytes}
    (hp : Cut p (0x3A :: write v)) : Lacks (do colon; item) p ∨ Exhausts (do colon; item) p := by
  rcases cut_cons.mp hp with rfl | ⟨q, rfl, hq⟩
  · exact .inl rfl
  · rw [Lacks, Exhausts, run_bind_ok (run_colon q)]
    exact h.missed hq

/-- A member is read after its colon, and the others after it. -/
theorem Chain.cons_read {name : String} {v : Value} {read : Scanner σ} (hmember : member name st = do colon; read)
    (h : Legible read v) (htakes : Takes read (write v) st') (hl : Chain member l st' st'') :
    Chain member ((name, v) :: l) st st'' := by
  refine .cons ?_ (fun p hp => ?_) hl
  · rw [hmember]
    exact htakes.colon
  · rw [hmember]
    exact h.missed_colon hp

theorem lacks_members_nil (st : σ) (fuel : Nat) : Lacks (members text member nextName fuel st) [] := by
  cases fuel <;> rfl

theorem writeMember_append (name : String) (v : Value) (rest : Bytes) :
    writeMember (name, v) ++ rest =
      0x22 :: ((Bytes.ofText name).flatMap escapeOctet ++ [0x22] ++ (0x3A :: write v ++ rest)) := by
  simp [writeMember, writeText]

/-- Once it is known that there is another member, octets are missed in its name, in its value or after it. -/
theorem lacks_members_of_more {name : String} {v : Value} (htakes : Takes (member name st) (0x3A :: write v) st')
    (hmissed : ∀ p, Cut p (0x3A :: write v) → Lacks (member name st) p ∨ Exhausts (member name st) p)
    {more : Scanner Bool} {s q after : Bytes} {fuel : Nat} (hmore : more.run s = .ok (true, q))
    (hq : Cut q ((Bytes.ofText name).flatMap escapeOctet ++ [0x22] ++ (0x3A :: write v ++ after)))
    (hafter : Closes after) (hrest : ∀ q', Cut q' after → Lacks (members text member nextName fuel st') q') :
    Lacks (members text member more (fuel + 1) st) s := by
  rw [Lacks, members, run_bind_ok hmore, if_pos rfl]
  rcases hq.of_append with hq | ⟨q', rfl, hq'⟩
  · exact (lacks_text name hq).bind _
  · rw [List.append_assoc, List.singleton_append, run_bind_ok (run_text name q')]
    rcases hq'.of_append with hq' | ⟨q'', rfl, hq''⟩
    · exact lacks_bind (hmissed q' hq') fun st => lacks_members_nil st fuel
    · rw [run_bind_ok (htakes q'' (closes_of_start hq''.1 hafter))]
      exact hrest q'' hq''

/-- Members after the first that are cut short before the closing brace are missed. -/
theorem Chain.lacks_members (h : Chain member l st st') {p : Bytes}
    (hp : Cut p ((l.flatMap fun m => 0x2C :: writeMember m) ++ [0x7D])) (fuel : Nat) :
    Lacks (members text member nextName fuel st) p := by
  induction h generalizing p fuel with
  | nil st =>
    rw [cut_singleton.mp hp]
    exact lacks_members_nil st fuel
  | @cons name v l st st' st'' takes missed _ ih =>
    cases fuel with
    | zero => rfl
    | succ fuel =>
      rw [List.flatMap_cons, List.append_assoc, List.cons_append, writeMember_append] at hp
      rcases cut_cons.mp hp with rfl | ⟨q, rfl, hq⟩
      · rfl
      · rcases cut_cons.mp hq with rfl | ⟨q', rfl, hq'⟩
        · rfl
        · have hcloses := closes_flatMap (f := writeMember) l (closes_cons (.inr (.inr rfl)) [])
          exact lacks_members_of_more takes missed rfl hq' hcloses fun q hq => ih hq fuel

/-- An object that is cut short after its opening brace is missed, if each member is after those before it. -/
theorem Chain.lacks_membersOf (h : Chain member l st st') {p : Bytes} (hp : Cut p (writeMembers l ++ [0x7D])) :
    Lacks (membersOf text member st) p := by
  rw [Lacks, membersOf, run_bind_ok (run_get _)]
  cases h with
  | nil =>
    rw [cut_singleton.mp hp]
    rfl
  | @cons name v l _ st' _ takes missed hl =>
    rw [writeMembers_cons, List.append_assoc, writeMember_append] at hp
    rcases cut_cons.mp hp with rfl | ⟨q, rfl, hq⟩
    · rfl
    · have hcloses := closes_flatMap (f := writeMember) l (closes_cons (.inr (.inr rfl)) [])
      exact lacks_members_of_more takes missed rfl hq hcloses fun q hq => hl.lacks_members hq _

end Chain

/-! ## Tables -/

/-- Legible members can be put into a table one after another. -/
theorem exists_chain_insert {item : Scanner α} {l : List (String × Value)} (h : ∀ m ∈ l, Legible item m.2)
    (t : Table String α) :
    ∃ t', Chain (fun name t => do colon; return t.insert name (← item)) l t t' := by
  induction l generalizing t with
  | nil => exact ⟨t, .nil t⟩
  | cons m l ih =>
    have hm := h m List.mem_cons_self
    obtain ⟨a, ha⟩ := hm.takes
    obtain ⟨t', ht'⟩ := ih (fun m' hm' => h m' (List.mem_cons_of_mem _ hm')) (t.insert m.1 a)
    exact ⟨t', .cons_read rfl (hm.map (t.insert m.1)) (ha.map (t.insert m.1)) ht'⟩

theorem legible_object {item : Scanner α} {l : List (String × Value)} (h : ∀ m ∈ l, Legible item m.2) :
    Legible (table item) (.object l) := by
  obtain ⟨t, ht⟩ := exists_chain_insert h Table.empty
  refine ⟨⟨t, fun rest _ => ?_⟩, fun p hp => ?_⟩
  · rw [write_object_append, table, run_opened (by decide)]
    exact ht.folds.run_membersOf rest
  · rw [write, List.cons_append] at hp
    exact .inl (lacks_opened (by decide) hp fun _ => ht.lacks_membersOf)

/-- A table is legible if its values are. -/
theorem legible_table {γ : Type} [ToJson γ] [FromJson γ] {t : Table String γ}
    (h : ∀ e ∈ t.entries, Legible (FromJson.scan : Scanner γ) (toJson e.2)) :
    Legible (FromJson.scan : Scanner (Table String γ)) (toJson t) :=
  legible_object (List.forall_mem_map.mpr h)

/-! ## Records -/

section Records

variable {β : Type} {fields : String → σ → Member σ}

/-- A field that is written next is read next and is missed where it is cut short. -/
theorem Chain.field {name : String} {draft draft' : σ} {item : Scanner β} {store : β → σ} {v : Value} {b : β}
    {l : List (String × Value)} (hfield : fields name draft = Scanner.field none item store) (h : Legible item v)
    (htakes : Takes item (write v) b) (hl : Chain (memberInto fields) l (store b) draft') :
    Chain (memberInto fields) ((name, v) :: l) draft draft' := by
  have hknown : fields name draft = .known (return store (← item)) := hfield
  have hread : memberInto fields name draft = do colon; return store (← item) := by rw [memberInto, hknown]
  exact .cons_read hread (h.map store) (htakes.map store) hl

/-- A record is legible if its members lead to a draft that is a record. -/
theorem legible_record {start draft : σ} {finish : σ → Option α} {places : Scanner α} {l : List (String × Value)}
    {a : α} (h : Chain (memberInto fields) l start draft) (hfinish : finish draft = some a) :
    Legible (record start fields finish places) (.object l) where
  takes := ⟨a, takes_record h.folds hfinish⟩
  cut := by
    intro p hp
    rw [write, List.cons_append] at hp
    exact .inl (lacks_opened (by decide) hp fun _ hq => (h.lacks_membersOf hq).bind _)

end Records

/-! ## Values of any shape -/

section Dispatch

variable (ofWord : Value → α) (number text array object : Scanner α) {p : Bytes}

theorem lacks_dispatch_null (hp : Cut p (write .null)) : Lacks (dispatch ofWord number text array object) p :=
  lacks_opened (by decide) hp fun _ hq => (lacks_word hq).bind _

theorem lacks_dispatch_bool {b : Bool} (hp : Cut p (write (.bool b))) :
    Lacks (dispatch ofWord number text array object) p := by
  cases b with
  | true =>
    rcases cut_cons.mp hp with rfl | ⟨q, rfl, hq⟩
    · rfl
    · rw [Lacks, dispatch, run_bind_ok (run_token (by decide) _), if_neg (by decide), if_pos rfl,
        run_bind_ok (run_advance _)]
      exact (lacks_word hq).bind _
  | false =>
    rcases cut_cons.mp hp with rfl | ⟨q, rfl, hq⟩
    · rfl
    · rw [Lacks, dispatch, run_bind_ok (run_token (by decide) _), if_neg (by decide), if_neg (by decide), if_pos rfl,
        run_bind_ok (run_advance _)]
      exact (lacks_word hq).bind _

/-- What is left of a number is missed or taken. -/
theorem cut_valueWith_number (array object : Scanner Value) {n : Int} (h : Fits n)
    (hp : Cut p (write (.number (.int n)))) :
    Lacks (valueWith array object) p ∨ Exhausts (valueWith array object) p := by
  obtain ⟨c, tail, hhead, hstarts, -⟩ := writeNumber_head n
  have hcut : Cut p (writeNumber (.int n)) := hp
  rw [hhead] at hcut
  rcases cut_cons.mp hcut with rfl | ⟨q, rfl, -⟩
  · exact .inl rfl
  · rw [Lacks, Exhausts, valueWith, run_dispatch_number _ _ _ _ _ _ hstarts]
    rcases run_number_of_cut h hp with hlacks | ⟨m, hm, -⟩
    · exact .inl (Lacks.map hlacks _)
    · exact .inr (Exhausts.map ⟨_, hm⟩ _)

theorem lacks_valueWith_text (array object : Scanner Value) {s : String} (hp : Cut p (writeText s)) :
    Lacks (valueWith array object) p := by
  rcases cut_cons.mp hp with rfl | ⟨q, rfl, hq⟩
  · rfl
  · rw [Lacks, valueWith, run_dispatch_text]
    exact (lacks_text s hq).map _

end Dispatch

/-- A value without floating point numbers is legible. -/
theorem legible_value {v : Value} (h : v.Plain) {depth : Nat} (hdepth : v.depth ≤ depth) : Legible (value depth) v := by
  refine ⟨⟨v, takes_value h hdepth⟩, ?_⟩
  induction h generalizing depth with
  | null =>
    intro p hp
    cases depth <;> exact .inl (lacks_dispatch_null id _ _ _ _ hp)
  | bool b =>
    intro p hp
    cases depth <;> exact .inl (lacks_dispatch_bool id _ _ _ _ hp)
  | @int n fits =>
    intro p hp
    cases depth <;> exact (cut_valueWith_number _ _ fits hp).imp_right fun hall => ⟨rfl, hall⟩
  | text s =>
    intro p hp
    cases depth <;> exact .inl (lacks_valueWith_text _ _ hp)
  | @array items plain ih =>
    rw [Value.depth] at hdepth
    cases depth with
    | zero => exact absurd hdepth (Nat.not_succ_le_zero _)
    | succ depth =>
      intro p hp
      have hitems : ∀ v ∈ items, Legible (value depth) v := by
        intro v hv
        have hle := Nat.le_trans (Value.depth_le_of_mem_items hv) (Nat.le_of_succ_le_succ hdepth)
        exact ⟨⟨v, takes_value (plain v hv) hle⟩, ih v hv hle⟩
      rw [write, List.cons_append] at hp
      rcases cut_cons.mp hp with rfl | ⟨q, rfl, hq⟩
      · exact .inl rfl
      · rw [Lacks, value, valueWith, run_dispatch_array]
        exact .inl ((lacks_itemsOf hitems hq).map _)
  | @object members ascending plain ih =>
    rw [Value.depth] at hdepth
    cases depth with
    | zero => exact absurd hdepth (Nat.not_succ_le_zero _)
    | succ depth =>
      intro p hp
      have hmembers : ∀ m ∈ members, Legible (value depth) m.2 := by
        intro m hm
        have hle := Nat.le_trans (Value.depth_le_of_mem_members hm) (Nat.le_of_succ_le_succ hdepth)
        exact ⟨⟨m.2, takes_value (plain m hm) hle⟩, ih m hm hle⟩
      obtain ⟨t, ht⟩ := exists_chain_insert hmembers Table.empty
      rw [write, List.cons_append] at hp
      rcases cut_cons.mp hp with rfl | ⟨q, rfl, hq⟩
      · exact .inl rfl
      · rw [Lacks, value, valueWith, run_dispatch_object]
        exact .inl ((ht.lacks_membersOf hq).bind _)

/-! ## All forms of a value -/

section Forms

variable {γ : Type} [ToJson γ] [Forms γ] [FromJson γ]

/-- Every form of a value that nests no more containers than are read is legible. -/
def LegibleForms (a : γ) : Prop := ∀ w, HasForm a w → w.depth ≤ depthLimit → Legible (FromJson.scan : Scanner γ) w

theorem legibleForms_list {l : List γ} (h : ∀ a ∈ l, LegibleForms a) : LegibleForms l := by
  rintro _ ⟨items, rfl, rfl, hforms⟩ hdepth
  refine legible_array (List.forall_mem_map.mpr fun i hi => ?_)
  exact h i.1 (List.mem_map_of_mem hi) i.2 (hforms i hi) (Value.depth_item_le hdepth (List.mem_map_of_mem hi))

theorem legibleForms_table {t : Table String γ} (h : ∀ e ∈ t.entries, LegibleForms e.2) : LegibleForms t := by
  rintro _ ⟨members, hmembers, rfl, hforms⟩ hdepth
  refine legible_object (List.forall_mem_map.mpr fun m hm => ?_)
  have hvalue := Value.depth_value_le hdepth (List.mem_map_of_mem (f := fun m => (m.1, m.2.2)) hm)
  exact h (m.1, m.2.1) (hmembers.subset (List.mem_map_of_mem hm)) m.2.2 (hforms m hm) hvalue

theorem legibleForms_option {o : Option γ} (h : ∀ a ∈ o, LegibleForms a)
    (hnil : Lacks (FromJson.scan : Scanner γ) []) : LegibleForms o := by
  intro w hform hdepth
  cases o with
  | none =>
    obtain rfl : w = .null := hform
    exact legible_option_null hnil
  | some a => exact (h a rfl w hform hdepth).option

end Forms

/-- A value that is written in one way is legible if this form is. -/
theorem Legible.forms {γ : Type} [ToJson γ] [FromJson γ] {a : γ}
    (h : Legible (FromJson.scan : Scanner γ) (toJson a)) : LegibleForms a :=
  fun _ hform _ => hform ▸ h

end Scanner

end Gatehouse.Json
