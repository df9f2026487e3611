import Gatehouse.Proofs.Json.Codec
import Gatehouse.Proofs.Json.Truncation

/-!
# Written values that are told from their beginnings

A written value is legible to a scanner that takes it, as one value or another, and misses octets in every beginning of
it that is not all of it. Arrays, objects and records are legible if their parts are: within a part the part is missed,
and after it the rest of the container. So a number, of which a beginning may be taken for a shorter one, does no harm
inside a container.
-/

namespace Gatehouse.Json

/-- Whether a value is a number. -/
def Value.isNumber : Value → Bool
  | .number _ => true
  | _ => false

namespace Scanner

variable {α β σ : Type}

/-- A scanner takes a written value, and misses octets where it is cut short. Only what is left of a number may be taken
for a number. -/
structure Legible (scan : Scanner α) (v : Value) : Prop where
  takes : ∃ a, Takes scan (write v) a
  cut : ∀ p, Cut p (write v) → Lacks scan p ∨ v.isNumber = true ∧ Exhausts scan p

theorem Legible.missed {scan : Scanner α} {v : Value} (h : Legible scan v) {p : Bytes} (hp : Cut p (write v)) :
    Lacks scan p ∨ Exhausts scan p :=
  (h.cut p hp).imp_right And.right

/-- What is done with a value does not change whether it is legible. -/
theorem Legible.map {scan : Scanner α} {v : Value} (h : Legible scan v) (f : α → β) :
    Legible (return f (← scan)) v where
  takes := let ⟨a, ha⟩ := h.takes; ⟨f a, ha.map f⟩
  cut p hp := (h.cut p hp).imp (Lacks.map · f) fun hnumber => ⟨hnumber.1, hnumber.2.map f⟩

/-! ## Words, integers and texts -/

theorem legible_null : Legible null .null where
  takes := ⟨(), readsBack_unit ()⟩
  cut _ hp := .inl (lacks_opened (by decide) hp fun _ => lacks_word)

theorem legible_bool (b : Bool) : Legible bool (.bool b) where
  takes := ⟨b, readsBack_bool b⟩
  cut := by
    intro p hp
    cases b with
    | true => exact .inl (lacks_opened (by decide) hp fun _ hq => (lacks_word hq).bind _)
    | false =>
      rcases cut_cons.mp hp with rfl | ⟨q, rfl, hq⟩
      · exact .inl rfl
      · rw [Lacks, bool, run_bind_ok (run_token (by decide) _), if_neg (by decide), if_pos rfl,
          run_bind_ok (run_advance _)]
        exact .inl ((lacks_word hq).bind _)

/-- An integer is legible within bounds around zero. -/
theorem legible_integer {low high n : Int} (h : Fits n) (hlow : low ≤ n ∧ low ≤ 0) (hhigh : n ≤ high ∧ 0 ≤ high) :
    Legible (integer low high) (.int n) where
  takes := ⟨n, takes_integer h hlow.1 hhigh.1⟩
  cut _ hp := (cut_integer h hlow hhigh hp).imp_right fun hall => ⟨rfl, hall⟩

/-- An integer type is legible within the bounds that it is read between. -/
theorem legible_ofInteger (low high : Int) (hlow : -9223372036854775808 ≤ low ∧ low ≤ 0)
    (hhigh : 0 ≤ high ∧ high < 18446744073709551616) {n : Int} (h : low ≤ n ∧ n ≤ high) (f : Int → α) :
    Legible (return f (← integer low high)) (.int n) :=
  (legible_integer ⟨by omega, by omega⟩ ⟨h.1, hlow.2⟩ ⟨h.2, hhigh.1⟩).map f

theorem legible_uint8 (n : UInt8) : Legible (FromJson.scan : Scanner UInt8) (toJson n) := by
  have hlt := n.toNat_lt
  exact legible_ofInteger 0 255 (by decide) (by decide) (by omega) fun n => UInt8.ofNat n.toNat

theorem legible_uint64 (n : UInt64) : Legible (FromJson.scan : Scanner UInt64) (toJson n) := by
  have hlt := n.toNat_lt
  exact legible_ofInteger 0 18446744073709551615 (by decide) (by decide) (by omega) fun n => UInt64.ofNat n.toNat

theorem legible_int32 (n : Int32) : Legible (FromJson.scan : Scanner Int32) (toJson n) := by
  have hlow := n.le_toInt
  have hhigh := n.toInt_lt
  exact legible_ofInteger (-2147483648) 2147483647 (by decide) (by decide) (by omega) Int32.ofInt

theorem legible_int64 (n : Int64) : Legible (FromJson.scan : Scanner Int64) (toJson n) := by
  have hlow := n.le_toInt
  have hhigh := n.toInt_lt
  exact legible_ofInteger (-9223372036854775808) 9223372036854775807 (by decide) (by decide) (by omega) Int64.ofInt

theorem legible_string (s : String) : Legible string (.text s) where
  takes := ⟨s, readsBack_string s⟩
  cut _ hp := .inl (lacks_string s hp)

/-- A name that stands for a value is legible. -/
theorem legible_choice {names : List (String × α)} {name : String} {a : α} (h : names.lookup name = some a) :
    Legible (choice names) (.text name) where
  takes := ⟨a, takes_choice h⟩
  cut _ hp := .inl (lacks_opened (by decide) hp fun _ hq => (lacks_text name hq).bind _)

/-! ## Options -/

theorem legible_option_null {item : Scanner α} (h : Lacks item []) : Legible (option item) .null where
  takes := ⟨none, takes_none item⟩
  cut := by
    intro p hp
    rcases cut_cons.mp hp with rfl | ⟨q, rfl, hq⟩
    · exact .inl (h.map some)
    · rw [Lacks, option, run_bind_ok (run_blanks (by decide) _), run_bind_ok (run_peek _),
        if_pos (List.head?_cons ..), run_bind_ok (run_advance _)]
      exact .inl ((lacks_word hq).bind _)

/-- What is no `null` is taken from an option as it is. -/
theorem run_option {item : Scanner α} {c : UInt8} (hspace : isSpace c = false) (hnull : c ≠ 0x6E) (s : Bytes) :
    (option item).run (c :: s) = (return some (← item) : Scanner (Option α)).run (c :: s) := by
  have hpeek : (c :: s).head? ≠ some 0x6E := by
    rw [List.head?_cons, Ne, Option.some_inj]
    exact hnull
  rw [option, run_bind_ok (run_blanks hspace _), run_bind_ok (run_peek _), if_neg hpeek]

/-- A value that is legible is legible as an option, also if it is itself written as `null`. -/
theorem Legible.option {item : Scanner α} {v : Value} (h : Legible item v) : Legible (option item) v := by
  obtain ⟨c, tail, hhead, hspace, -, hnull⟩ := write_head v
  by_cases hc : c = 0x6E
  · obtain rfl := hnull hc
    have hnil : Cut [] (write .null) := cut_cons.mpr (.inl rfl)
    exact legible_option_null ((h.cut [] hnil).resolve_right fun hnumber => Bool.false_ne_true hnumber.1)
  · have hmap := h.map some
    obtain ⟨a, ha⟩ := hmap.takes
    refine ⟨⟨a, fun rest hrest => ?_⟩, fun p hp => ?_⟩
    · have hrun := ha rest hrest
      rw [hhead, List.cons_append] at hrun ⊢
      exact (run_option hspace hc _).trans hrun
    · have hcut := hmap.cut p hp
      rw [hhead] at hp
      rcases cut_cons.mp hp with rfl | ⟨q, rfl, -⟩
      · exact hcut
      · rw [Lacks, Exhausts, run_option hspace hc]
        exact hcut

/-- An option is legible if its value is. -/
theorem legible_option {γ : Type} [ToJson γ] [FromJson γ] {o : Option γ}
    (h : ∀ a ∈ o, Legible (FromJson.scan : Scanner γ) (toJson a)) (hnil : Lacks (FromJson.scan : Scanner γ) []) :
    Legible (FromJson.scan : Scanner (Option γ)) (toJson o) := by
  cases o with
  | none => exact legible_option_null hnil
  | some a => exact (h a rfl).option

/-! ## Arrays -/

theorem closes_of_start {p w : Bytes} (h : p <+: w) (hw : Closes w) : Closes p := by
  cases p with
  | nil => exact closes_nil
  | cons c p =>
    obtain ⟨rest, rfl⟩ := h
    exact hw

/-- A beginning of a written value that is not empty starts as a value does. -/
theorem opens_of_start {p : Bytes} {v : Value} (h : p <+: write v) (hne : p ≠ []) : Opens p := by
  obtain ⟨c, tail, hhead, hspace, hbracket, -⟩ := write_head v
  rw [hhead] at h
  obtain ⟨q, rfl, -⟩ := (List.prefix_cons_iff.mp h).resolve_left hne
  exact ⟨c, q, rfl, hspace, hbracket⟩

theorem lacks_items_nil (item : Scanner α) (fuel : Nat) : Lacks (items item nextItem fuel) [] := by
  cases fuel <;> rfl

/-- Once it is known that there is another item, octets are missed in the item or after it. -/
theorem lacks_items_of_more {item : Scanner α} {v : Value} (hv : Legible item v) {more : Scanner Bool}
    {s q after : Bytes} {fuel : Nat} (hmore : more.run s = .ok (true, q)) (hq : Cut q (write v ++ after))
    (hafter : Closes after) (hrest : ∀ q', Cut q' after → Lacks (items item nextItem fuel) q') :
    Lacks (items item more (fuel + 1)) s := by
  rw [Lacks, items, run_bind_ok hmore, if_pos rfl]
  rcases hq.of_append with hq | ⟨q', rfl, hq'⟩
  · exact lacks_bind (hv.missed hq) fun a => (lacks_items_nil item fuel).bind _
  · obtain ⟨a, ha⟩ := hv.takes
    rw [run_bind_ok (ha q' (closes_of_start hq'.1 hafter))]
    exact (hrest q' hq').bind _

/-- Items after the first that are cut short before the closing bracket are missed. -/
theorem lacks_items {item : Scanner α} {vs : List Value} (h : ∀ v ∈ vs, Legible item v) {p : Bytes}
    (hp : Cut p ((vs.flatMap fun v => 0x2C :: write v) ++ [0x5D])) (fuel : Nat) :
    Lacks (items item nextItem fuel) p := by
  induction vs generalizing p fuel with
  | nil =>
    rw [cut_singleton.mp hp]
    exact lacks_items_nil item fuel
  | cons v vs ih =>
    cases fuel with
    | zero => rfl
    | succ fuel =>
      rw [List.flatMap_cons, List.append_assoc, List.cons_append] at hp
      rcases cut_cons.mp hp with rfl | ⟨q, rfl, hq⟩
      · rfl
      · by_cases hnil : q = []
        · rw [hnil]
          rfl
        · have hopens : Opens q := by
            rcases hq.of_append with hq | ⟨q', rfl, -⟩
            · exact opens_of_start hq.1 hnil
            · exact opens_write v q'
          exact lacks_items_of_more (h v List.mem_cons_self) (run_nextItem hopens) hq
            (closes_flatMap (f := write) vs (closes_cons (.inr (.inl rfl)) []))
            fun q' hq' => ih (fun w hw => h w (List.mem_cons_of_mem _ hw)) hq' fuel

/-- An array that is cut short after its opening bracket is missed, if its items are legible. -/
theorem lacks_itemsOf {item : Scanner α} {vs : List Value} (h : ∀ v ∈ vs, Legible item v) {p : Bytes}
    (hp : Cut p (writeItems vs ++ [0x5D])) : Lacks (itemsOf item) p := by
  rw [Lacks, itemsOf, run_bind_ok (run_get _)]
  by_cases hnil : p = []
  · rw [hnil]
    rfl
  · cases vs with
    | nil => exact absurd (cut_singleton.mp hp) hnil
    | cons v vs =>
      rw [writeItems_cons, List.append_assoc] at hp
      have hopens : Opens p := by
        rcases hp.of_append with hp | ⟨q, rfl, -⟩
        · exact opens_of_start hp.1 hnil
        · exact opens_write v q
      exact lacks_items_of_more (h v List.mem_cons_self) (run_firstItem hopens) hp
        (closes_flatMap (f := write) vs (closes_cons (.inr (.inl rfl)) []))
        fun q hq => lacks_items (fun w hw => h w (List.mem_cons_of_mem _ hw)) hq _

/-- Items that are all taken are taken as a list. -/
theorem exists_items {item : Scanner α} {vs : List Value} (h : ∀ v ∈ vs, ∃ a, Takes item (write v) a) :
    ∃ l, List.Forall₂ (fun v a => Takes item (write v) a) vs l := by
  induction vs with
  | nil => exact ⟨[], .nil⟩
  | cons v vs ih =>
    obtain ⟨a, ha⟩ := h v List.mem_cons_self
    obtain ⟨l, hl⟩ := ih fun w hw => h w (List.mem_cons_of_mem _ hw)
    exact ⟨a :: l, .cons ha hl⟩

theorem legible_array {item : Scanner α} {vs : List Value} (h : ∀ v ∈ vs, Legible item v) :
    Legible (list item) (.array vs) where
  takes := by
    obtain ⟨l, hl⟩ := exists_items fun v hv => (h v hv).takes
    refine ⟨l, fun rest _ => ?_⟩
    rw [write_array_append, list, run_opened (by decide), run_itemsOf hl rest]
  cut := by
    intro p hp
    rw [write, List.cons_append] at hp
    exact .inl (lacks_opened (by decide) hp fun _ => lacks_itemsOf h)

/-- A list is legible if its items are. -/
theorem legible_list {γ : Type} [ToJson γ] [FromJson γ] {l : List γ}
    (h : ∀ a ∈ l, Legible (FromJson.scan : Scanner γ) (toJson a)) :
    Legible (FromJson.scan : Scanner (List γ)) (toJson l) :=
  legible_array (List.forall_mem_map.mpr h)

end Scanner

end Gatehouse.Json
