import Gatehouse.Proofs.Json.LegibleObject

/-!
# Written values that are refused part way

A scanner refuses a written value if already a beginning of it shows that it has another shape than the one wanted. A
container is refused if one of its parts is and the parts before that one are legible. Whether the octets then end
there or not makes no difference, so octets that are cut short after the fault are not found to be cut short.
-/

namespace Gatehouse.Json

namespace Scanner

variable {α σ : Type}

/-- A scanner finds before the end of a written value that it has another shape than the one wanted. -/
def Refuses (scan : Scanner α) (v : Value) : Prop := ∃ p, Cut p (write v) ∧ scan.run p = .error .mismatch

/-- If not all parts are as wanted, there is a first that is not. -/
theorem exists_first {P : α → Prop} {l : List α} (h : ¬∀ a ∈ l, P a) :
    ∃ before a after, l = before ++ a :: after ∧ (∀ b ∈ before, P b) ∧ ¬P a := by
  induction l with
  | nil => exact absurd (fun a ha => absurd ha List.not_mem_nil) h
  | cons a l ih =>
    by_cases ha : P a
    · have htail : ¬∀ b ∈ l, P b := fun hl => h (List.forall_mem_cons.mpr ⟨ha, hl⟩)
      obtain ⟨before, b, after, rfl, hbefore, hb⟩ := ih htail
      exact ⟨a :: before, b, after, rfl, List.forall_mem_cons.mpr ⟨ha, hbefore⟩, hb⟩
    · exact ⟨[], a, l, rfl, fun b hb => absurd hb List.not_mem_nil, ha⟩

/-- A scanner that misses octets where there are none has read something when it refuses. -/
theorem ne_nil_of_mismatch {scan : Scanner α} (h : Lacks scan []) {p : Bytes} (hp : scan.run p = .error .mismatch) :
    p ≠ [] := by
  rintro rfl
  cases h.symm.trans hp

/-! ## Containers -/

theorem Refuses.option {item : Scanner α} {v : Value} (h : Refuses item v) (hnil : Lacks item []) (hv : v ≠ .null) :
    Refuses (option item) v := by
  obtain ⟨p, hp, hrun⟩ := h
  obtain ⟨c, tail, hhead, hspace, -, hnull⟩ := write_head v
  have hcut := hp
  rw [hhead] at hcut
  obtain ⟨q, rfl, -⟩ := (cut_cons.mp hcut).resolve_left (ne_nil_of_mismatch hnil hrun)
  exact ⟨c :: q, hp, (run_option hspace (fun hc => hv (hnull hc)) q).trans (run_bind_error hrun)⟩

/-- The items of two arrays one after the other. -/
theorem writeItems_append (w : Value) (ws : List Value) (v : Value) (vs : List Value) :
    writeItems (w :: ws ++ v :: vs) = writeItems (w :: ws) ++ 0x2C :: writeItems (v :: vs) := by
  rw [List.cons_append, writeItems_cons, writeItems_cons, writeItems_cons, List.flatMap_append, List.flatMap_cons,
    List.append_assoc, List.cons_append]

/-- An array is refused if an item is, after legible ones. -/
theorem refuses_list {item : Scanner α} {ws : List Value} {v : Value} (hws : ∀ w ∈ ws, Legible item w)
    (h : Refuses item v) (hnil : Lacks item []) (vs : List Value) : Refuses (list item) (.array (ws ++ v :: vs)) := by
  obtain ⟨p, hp, hrun⟩ := h
  have hopens : Opens p := opens_of_start hp.1 (ne_nil_of_mismatch hnil hrun)
  have hlist (s : Bytes) : (list item).run (0x5B :: s) = (itemsOf item).run s := by
    rw [list, run_opened (by decide)]
  cases ws with
  | nil =>
    refine ⟨0x5B :: p, ?_, ?_⟩
    · rw [List.nil_append, write, writeItems_cons, ← List.cons_append, List.append_assoc]
      exact hp.append [0x5B] _
    · rw [hlist, itemsOf, run_bind_ok (run_get _), items, run_bind_ok (run_firstItem hopens), if_pos rfl]
      exact run_bind_error hrun
  | cons w ws =>
    obtain ⟨a, ha⟩ := (hws w List.mem_cons_self).takes
    obtain ⟨l, hl⟩ := exists_items fun w' hw' => (hws w' (List.mem_cons_of_mem _ hw')).takes
    obtain ⟨fuel, hitems⟩ := run_itemsOf_cons ha hl (closes_cons (.inl rfl) p)
    refine ⟨0x5B :: (writeItems (w :: ws) ++ 0x2C :: p), ?_, ?_⟩
    · have hcut := hp.append (0x5B :: (writeItems (w :: ws) ++ [0x2C]))
        ((vs.flatMap fun v => 0x2C :: write v) ++ [0x5D])
      rw [write, writeItems_append, writeItems_cons v]
      simpa using hcut
    · rw [hlist, hitems, items]
      refine run_bind_error ?_
      rw [run_bind_ok (run_nextItem hopens), if_pos rfl]
      exact run_bind_error hrun

/-- The members of two objects one after the other. -/
theorem writeMembers_append (m : String × Value) (l : List (String × Value)) (m' : String × Value)
    (l' : List (String × Value)) :
    writeMembers (m :: l ++ m' :: l') = writeMembers (m :: l) ++ 0x2C :: writeMembers (m' :: l') := by
  rw [List.cons_append, writeMembers_cons, writeMembers_cons, writeMembers_cons, List.flatMap_append,
    List.flatMap_cons, List.append_assoc, List.cons_append]

theorem cut_object {p : Bytes} {l : List (String × Value)} (h : p <+: writeMembers l) :
    Cut (0x7B :: p) (write (.object l)) := by
  rw [write]
  exact cut_append ((List.prefix_cons_inj _).mpr h) (List.cons_ne_nil _ _)

/-- The members of an object are refused where one of them is, after those before it. -/
theorem Folds.refuses_membersOf {member : String → σ → Scanner σ} {l : List (String × Value)} {st st' : σ}
    (h : Folds member l st st') {name : String} {v : Value} {q : Bytes} (hq : q <+: 0x3A :: write v)
    (hrun : (member name st').run q = .error .mismatch) (l' : List (String × Value)) :
    ∃ p, Cut (0x7B :: p) (write (.object (l ++ (name, v) :: l'))) ∧
      (membersOf text member st).run p = .error .mismatch := by
  have hbegins : writeText name ++ q <+: writeMembers ((name, v) :: l') := by
    rw [writeMembers_cons]
    exact ((List.prefix_append_right_inj _).mpr hq).trans (List.prefix_append _ _)
  cases h with
  | nil st =>
    refine ⟨writeText name ++ q, cut_object hbegins, ?_⟩
    rw [membersOf, run_bind_ok (run_get _), members, run_bind_ok (run_firstName name q), if_pos rfl,
      run_bind_ok (run_text name q)]
    exact run_bind_error hrun
  | @cons name' v' l st st' _ hmember hl =>
    obtain ⟨fuel, hmembers⟩ :=
      (Folds.cons hmember hl).run_membersOf_cons (closes_cons (.inl rfl) (writeText name ++ q))
    refine ⟨writeMembers ((name', v') :: l) ++ 0x2C :: (writeText name ++ q), cut_object ?_, ?_⟩
    · rw [writeMembers_append]
      exact (List.prefix_append_right_inj _).mpr ((List.prefix_cons_inj _).mpr hbegins)
    · rw [hmembers, members, run_bind_ok (run_nextName name q), if_pos rfl, run_bind_ok (run_text name q)]
      exact run_bind_error hrun

/-- A table is refused if the value of a member is, after legible ones. -/
theorem refuses_table {item : Scanner α} {l : List (String × Value)} (hl : ∀ m ∈ l, Legible item m.2) {v : Value}
    (h : Refuses item v) (name : String) (l' : List (String × Value)) :
    Refuses (table item) (.object (l ++ (name, v) :: l')) := by
  obtain ⟨q, hq, hrun⟩ := h
  obtain ⟨t, ht⟩ := exists_chain_insert hl Table.empty
  have hmember : (do colon; return t.insert name (← item) : Scanner (Table String α)).run (0x3A :: q) =
      .error .mismatch := by
    rw [run_bind_ok (run_colon q)]
    exact run_bind_error hrun
  obtain ⟨p, hp, hmembers⟩ := ht.folds.refuses_membersOf ((List.prefix_cons_inj _).mpr hq.1) hmember l'
  refine ⟨0x7B :: p, hp, ?_⟩
  rw [table, run_opened (by decide)]
  exact hmembers

/-! ## Values of another shape -/

/-- A value of another shape than the one wanted is told as such. -/
theorem run_unexpected {v : Value} (h : v.Plain) {rest : Bytes} (hrest : Closes rest) :
    (unexpected : Scanner α).run (write v ++ rest) = .error .mismatch := by
  cases h with
  | null =>
    rw [unexpected, run_bind_ok (run_dispatch_null ..)]
    rfl
  | bool b =>
    rw [unexpected, run_bind_ok (run_dispatch_bool ..)]
    rfl
  | @int n fits =>
    obtain ⟨c, tail, hhead, hstarts, -⟩ := writeNumber_head n
    have hnumber := (takes_number fits).map (fun _ => ()) rest hrest
    rw [hhead, List.cons_append] at hnumber
    rw [write, hhead, List.cons_append, unexpected,
      run_bind_ok ((run_dispatch_number _ _ _ _ _ _ hstarts).trans hnumber)]
    rfl
  | text s =>
    have htext : (do let _ ← text : Scanner Unit).run ((Bytes.ofText s).flatMap escapeOctet ++ 0x22 :: rest) =
        .ok ((), rest) := by
      rw [run_bind_ok (run_text s rest)]
      rfl
    rw [write, writeText_append, unexpected, run_bind_ok ((run_dispatch_text ..).trans htext)]
    rfl
  | array _ =>
    rw [write_array_append, unexpected]
    exact run_bind_error (run_dispatch_array ..)
  | object _ _ =>
    rw [write_object_append, unexpected]
    exact run_bind_error (run_dispatch_object ..)

/-- Only numbers start as numbers do, and only texts with a quote. -/
theorem kind_of_head {v : Value} (h : v.Plain) {c : UInt8} {tail : Bytes} (hhead : write v = c :: tail) :
    (startsNumber c = true → ∃ n, v = .int n ∧ Fits n) ∧ (c = 0x22 → ∃ s, v = .text s) := by
  cases h with
  | @int n fits =>
    obtain ⟨c', tail', hnumber, hstarts, -⟩ := writeNumber_head n
    obtain ⟨rfl, -⟩ := List.cons.inj (hhead.symm.trans hnumber)
    refine ⟨fun _ => ⟨n, rfl, fits⟩, ?_⟩
    rintro rfl
    exact absurd hstarts (by decide)
  | text s =>
    obtain ⟨rfl, -⟩ := List.cons.inj hhead
    exact ⟨fun hc => absurd hc (by decide), fun _ => ⟨s, rfl⟩⟩
  | bool b =>
    cases b with
    | true =>
      obtain ⟨rfl, -⟩ := List.cons.inj hhead
      exact ⟨fun hc => absurd hc (by decide), fun hc => absurd hc (by decide)⟩
    | false =>
      obtain ⟨rfl, -⟩ := List.cons.inj hhead
      exact ⟨fun hc => absurd hc (by decide), fun hc => absurd hc (by decide)⟩
  | null | array _ | object _ _ =>
    obtain ⟨rfl, -⟩ := List.cons.inj hhead
    exact ⟨fun hc => absurd hc (by decide), fun hc => absurd hc (by decide)⟩

/-- What is no integer between the bounds is of another shape. -/
theorem run_integer_of_not {low high : Int} {v : Value} (h : v.Plain)
    (hother : ∀ n, v = .int n → ¬(low ≤ n ∧ n ≤ high)) {rest : Bytes} (hrest : Closes rest) :
    (integer low high).run (write v ++ rest) = .error .mismatch := by
  obtain ⟨c, tail, hhead, hspace, -⟩ := write_head v
  by_cases hc : startsNumber c = true
  · obtain ⟨n, rfl, hfits⟩ := (kind_of_head h hhead).1 hc
    rw [integer]
    refine (run_bind_ok (takes_anyNumber hfits rest hrest)).trans ?_
    simp only [if_neg (hother n rfl)]
    rfl
  · have hunexpected := run_unexpected (α := Number) h hrest
    rw [integer]
    refine run_bind_error ?_
    rw [hhead, List.cons_append] at hunexpected ⊢
    rw [anyNumber, run_bind_ok (run_token hspace _), if_neg hc, hunexpected]

/-- What is no `null` is of another shape as an option if it is as its value. -/
theorem run_option_error {item : Scanner α} {v : Value} (hv : v ≠ .null) {rest : Bytes} {e : DecodeError}
    (h : item.run (write v ++ rest) = .error e) : (option item).run (write v ++ rest) = .error e := by
  obtain ⟨c, tail, hhead, hspace, -, hnull⟩ := write_head v
  rw [hhead, List.cons_append] at h ⊢
  exact (run_option hspace (fun hc => hv (hnull hc)) _).trans (run_bind_error h)

/-- What is no text is of another shape. -/
theorem run_string_of_not {v : Value} (h : v.Plain) (hother : ∀ s, v ≠ .text s) {rest : Bytes} (hrest : Closes rest) :
    string.run (write v ++ rest) = .error .mismatch := by
  obtain ⟨c, tail, hhead, hspace, -⟩ := write_head v
  have hquote : c ≠ 0x22 := by
    intro hc
    obtain ⟨s, rfl⟩ := (kind_of_head h hhead).2 hc
    exact hother s rfl
  have hunexpected := run_unexpected (α := String) h hrest
  rw [hhead, List.cons_append] at hunexpected ⊢
  rw [string, run_bind_ok (run_token hspace _), if_neg hquote, hunexpected]

end Scanner

end Gatehouse.Json
