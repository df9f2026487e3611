import Gatehouse.Cache.Typed
import Gatehouse.Proofs.Payload.RoundTrip
import Gatehouse.Proofs.Token.Truncation

/-!
# Stored values that are cut short

The stored form of a value that is cut short, wherever that is, is told as such, unless it is a number, of which a
beginning is a number too. The only values for which this fails hold claims of a token with another member that cannot
be read along with them: their stored form is refused where it is whole as well.
-/

namespace Gatehouse

open Json Scanner

/-! ## Sample records -/

theorem Profile.legible (p : Profile) : Legible (FromJson.scan : Scanner Profile) (toJson p) := by
  have htags : ReadsBack p.tags := readsBack_list fun s _ => readsBack_string s
  have hmanager : ReadsBack p.manager := readsBack_option fun s _ => ⟨readsBack_string s, nofun⟩
  refine legible_record (?_ : Chain (memberInto fields) _ {} ⟨some p.name, some p.tags, some p.manager⟩) rfl
  refine .field rfl (legible_string p.name) (readsBack_string p.name) ?_
  refine .field rfl (legible_list fun s _ => legible_string s) htags ?_
  refine .field rfl (legible_option (fun s _ => legible_string s) rfl) hmanager ?_
  exact .nil _

/-- A nested record without a score is legible. -/
theorem Inner.legible {i : Inner} (h : i.score = none) : Legible (FromJson.scan : Scanner Inner) (toJson i) := by
  obtain ⟨label, score⟩ := i
  obtain rfl : score = none := h
  have hscore : ReadsBack (none : Option Binary64) := readsBack_option fun x hx => absurd hx (Option.not_mem_none x)
  refine legible_record (?_ : Chain (memberInto fields) _ {} ⟨some label, some none⟩) rfl
  refine .field rfl (legible_string label) (readsBack_string label) ?_
  refine .field rfl (legible_option (fun x hx => absurd hx (Option.not_mem_none x)) rfl) hscore ?_
  exact .nil _

theorem Outer.legible {o : Outer} (h : ∀ i ∈ o.inner, i.score = none) :
    Legible (FromJson.scan : Scanner Outer) (toJson o) := by
  have htags : ReadsBack o.tags := readsBack_list fun s _ => readsBack_string s
  have hinner : ReadsBack o.inner := readsBack_option fun i hi => ⟨Inner.readsBack (h i hi), nofun⟩
  have hattributes : ReadsBack o.attributes := readsBack_table fun e _ => readsBack_int32 e.2
  refine legible_record
    (?_ : Chain (memberInto fields) _ {} ⟨some o.id, some o.tags, some o.inner, some o.attributes⟩) rfl
  refine .field rfl (legible_uint64 o.id) (readsBack_uint64 o.id) ?_
  refine .field rfl (legible_list fun s _ => legible_string s) htags ?_
  refine .field rfl (legible_option (fun i hi => Inner.legible (h i hi)) rfl) hinner ?_
  refine .field rfl (legible_table fun e _ => legible_int32 e.2) hattributes ?_
  exact .nil _

/-! ## Shapes -/

namespace Shape

/-- The values of a shape without floating point numbers: JSON values and members as they can be written, and instants
that exist. -/
def Valid : (s : Shape) → s.Carrier → Prop
  | f64, _ => False
  | json, v => Value.Plain v
  | outer, o => ∀ i ∈ Outer.inner o, i.score = none
  | claims, c => TokenClaims.Valid c
  | record, r => TokenRecord.Valid r
  | _, _ => True

/-- The values of a shape whose members can be told apart: claims have no other member in the place of a claim. -/
def Clear : (s : Shape) → s.Carrier → Prop
  | claims, c => TokenClaims.Clear c
  | _, _ => True

theorem legible (s : Shape) {v : s.Carrier} (hvalid : s.Valid v) (h : s.Clear v) : LegibleForms v := by
  cases s with
  | unit => exact legible_null.forms
  | bool => exact (legible_bool v).forms
  | u8 => exact (legible_uint8 v).forms
  | i32 => exact (legible_int32 v).forms
  | i64 => exact (legible_int64 v).forms
  | u64 => exact (legible_uint64 v).forms
  | f64 => exact absurd hvalid id
  | string => exact (legible_string v).forms
  | bytes => exact (legible_list fun n _ => legible_uint8 n).forms
  | integers => exact (legible_list fun n _ => legible_int64 n).forms
  | strings => exact (legible_list fun s _ => legible_string s).forms
  | integerMap => exact legibleForms_table fun e _ => (legible_int64 e.2).forms
  | boolListMap => exact legibleForms_table fun e _ => legibleForms_list fun b _ => (legible_bool b).forms
  | optionalInteger => exact (legible_option (fun n _ => legible_int64 n) rfl).forms
  | json =>
    rintro _ rfl hdepth
    exact legible_value hvalid hdepth
  | kind => exact (TokenKind.legible v).forms
  | account => exact (AccountType.legible v).forms
  | profile => exact (Profile.legible v).forms
  | outer => exact (Outer.legible hvalid).forms
  | claims => exact TokenClaims.legible hvalid h
  | record => exact (TokenRecord.legible hvalid).forms

/-- Only claims are refused, and they are an object. -/
theorem refuses (s : Shape) {v : s.Carrier} (hvalid : s.Valid v) (h : ¬s.Clear v) {w : Value} (hform : HasForm v w)
    (hdepth : w.depth ≤ depthLimit) : Refuses (FromJson.scan : Scanner s.Carrier) w ∧ w ≠ .null := by
  cases s with
  | claims => exact ⟨TokenClaims.refuses hvalid h hform hdepth, ne_null_of_form rfl hform⟩
  | _ => exact absurd trivial h

theorem lacks_nil (s : Shape) : Lacks (FromJson.scan : Scanner s.Carrier) [] := by
  cases s <;> rfl

end Shape

/-! ## Stored values -/

namespace Composite

theorem lacks_nil (c : Composite) : Lacks (FromJson.scan : Scanner c.Carrier) [] := by
  induction c with
  | shape s => exact s.lacks_nil
  | list c => rfl
  | table c => rfl
  | option c ih => exact ih.map some

/-- A value all of whose claims can be told from their other members is legible. -/
theorem legible (c : Composite) {v : c.Carrier} (hvalid : c.Every Shape.Valid v) (h : c.Every Shape.Clear v) :
    LegibleForms v := by
  induction c with
  | shape s => exact s.legible hvalid h
  | list c ih => exact legibleForms_list fun a ha => ih (hvalid a ha) (h a ha)
  | table c ih => exact legibleForms_table fun e he => ih (hvalid e he) (h e he)
  | option c ih => exact legibleForms_option (fun a ha => ih (hvalid a ha) (h a ha)) c.lacks_nil

/-- A value some of whose claims cannot be told from their other members is refused at the first of them that is
written. -/
theorem refuses (c : Composite) {v : c.Carrier} (hvalid : c.Every Shape.Valid v) (h : ¬c.Every Shape.Clear v)
    {w : Value} (hform : HasForm v w) (hdepth : w.depth ≤ depthLimit) :
    Refuses (FromJson.scan : Scanner c.Carrier) w ∧ w ≠ .null := by
  induction c generalizing w with
  | shape s => exact s.refuses hvalid h hform hdepth
  | list c ih =>
    obtain ⟨items, rfl, rfl, hforms⟩ := hform
    have hunclear : ¬∀ i ∈ items, c.Every Shape.Clear i.1 := fun hi => h (List.forall_mem_map.mpr hi)
    obtain ⟨before, i, after, rfl, hbefore, hi⟩ := exists_first hunclear
    have hitem (j : c.Carrier × Value) (hj : j ∈ before ++ i :: after) :
        c.Every Shape.Valid j.1 ∧ HasForm j.1 j.2 ∧ j.2.depth ≤ depthLimit :=
      ⟨hvalid j.1 (List.mem_map_of_mem hj), hforms j hj, Value.depth_item_le hdepth (List.mem_map_of_mem hj)⟩
    obtain ⟨hvalidItem, hformItem, hdepthItem⟩ := hitem i (List.mem_append_right _ List.mem_cons_self)
    have hlegible : ∀ w ∈ before.map Prod.snd, Legible (FromJson.scan : Scanner c.Carrier) w := by
      refine List.forall_mem_map.mpr fun j hj => ?_
      obtain ⟨hvalidItem, hformItem, hdepthItem⟩ := hitem j (List.mem_append_left _ hj)
      exact c.legible hvalidItem (hbefore j hj) j.2 hformItem hdepthItem
    have hlist := refuses_list hlegible (ih hvalidItem hi hformItem hdepthItem).1 c.lacks_nil (after.map Prod.snd)
    rw [← List.map_cons, ← List.map_append] at hlist
    exact ⟨hlist, nofun⟩
  | table c ih =>
    obtain ⟨members, hmembers, rfl, hforms⟩ := hform
    have hunclear : ¬∀ m ∈ members, c.Every Shape.Clear m.2.1 := by
      refine fun hall => h fun e he => ?_
      obtain ⟨m, hm, rfl⟩ := List.mem_map.mp (hmembers.symm.subset he)
      exact hall m hm
    obtain ⟨before, m, after, rfl, hbefore, hm⟩ := exists_first hunclear
    have hvalue (m' : String × c.Carrier × Value) (hm' : m' ∈ before ++ m :: after) :
        c.Every Shape.Valid m'.2.1 ∧ HasForm m'.2.1 m'.2.2 ∧ m'.2.2.depth ≤ depthLimit :=
      ⟨hvalid (m'.1, m'.2.1) (hmembers.subset (List.mem_map_of_mem hm')), hforms m' hm',
        Value.depth_value_le hdepth (List.mem_map_of_mem (f := fun m => (m.1, m.2.2)) hm')⟩
    obtain ⟨hvalidValue, hformValue, hdepthValue⟩ := hvalue m (List.mem_append_right _ List.mem_cons_self)
    have hlegible : ∀ m ∈ before.map fun m => (m.1, m.2.2), Legible (FromJson.scan : Scanner c.Carrier) m.2 := by
      refine List.forall_mem_map.mpr fun m' hm' => ?_
      obtain ⟨hvalidValue, hformValue, hdepthValue⟩ := hvalue m' (List.mem_append_left _ hm')
      exact c.legible hvalidValue (hbefore m' hm') m'.2.2 hformValue hdepthValue
    have htable := refuses_table hlegible (ih hvalidValue hm hformValue hdepthValue).1 m.1
      (after.map fun m => (m.1, m.2.2))
    rw [← List.map_cons (f := fun m : String × c.Carrier × Value => (m.1, m.2.2)), ← List.map_append] at htable
    exact ⟨htable, nofun⟩
  | option c ih =>
    cases v with
    | none => exact absurd (fun a ha => absurd ha (Option.not_mem_none a)) h
    | some a =>
      have ha : ¬c.Every Shape.Clear a := fun ha => h fun b hb => Option.some_inj.mp hb ▸ ha
      obtain ⟨hrefuses, hnull⟩ := ih (hvalid a rfl) ha hform hdepth
      exact ⟨hrefuses.option c.lacks_nil hnull, hnull⟩

end Composite

/-- Octets that miss something are read as a stored form that ended too soon, and no others are that are refused. -/
theorem read_of_run {α : Type} [FromJson α] {p : Bytes} {e : DecodeError}
    (h : (FromJson.scan : Scanner α).run p = .error e) :
    (Cache.read p : Except CacheError α) = .error (.decoding e) := by
  have hdecode : (decode p : Except DecodeError α) = .error e := by
    change ((FromJson.scan : Scanner α).run p >>= _) = _
    rw [h]
    rfl
  rw [Cache.read, hdecode]
  rfl

/-- A value without floating point numbers is stored in one of its forms. Each of them that nests at most 127
containers, and is not a mere number, is told to have ended too soon wherever it is cut short, just if all claims in the
value can be told from their other members. -/
theorem cut_incomplete_iff (c : Composite) (v : c.Carrier) (hvalid : c.Every Shape.Valid v) :
    (∃ w, HasForm v w ∧ Encode.encode v = .ok (write w)) ∧
      ∀ w, HasForm v w → w.depth ≤ 127 → w.isNumber = false →
        ((∀ p, p <+: write w → p ≠ write w →
            ∃ e, (Cache.read p : Except CacheError c.Carrier) = .error e ∧ e.isIncomplete = true) ↔
          c.Every Shape.Clear v) := by
  refine ⟨⟨toJson v, hasForm_toJson v, rfl⟩, fun w hform hdepth hnumber => ⟨fun htold => ?_, ?_⟩⟩
  · by_contra hclear
    obtain ⟨⟨p, ⟨hbegins, hne⟩, hrun⟩, -⟩ := c.refuses hvalid hclear hform hdepth
    obtain ⟨e, hread, hincomplete⟩ := htold p hbegins hne
    rw [read_of_run hrun] at hread
    obtain rfl := Except.error.inj hread
    exact Bool.false_ne_true hincomplete
  · intro hclear p hbegins hne
    rcases (c.legible hvalid hclear w hform hdepth).cut p ⟨hbegins, hne⟩ with hlacks | ⟨hnumeric, -⟩
    · exact ⟨.decoding .truncated, read_of_run hlacks, rfl⟩
    · exact absurd (hnumber.symm.trans hnumeric) Bool.false_ne_true

/-- Claims with a member in the place of the expiry, which is absent, and with a text of more than one octet a
character. -/
def placedClaims : TokenClaims :=
  { jti := "ß\"🔑", sub := "\n", exp := none, act := some "admin"
    extra := ⟨[("aud", .bool true), ("exp", .null)], by decide +kernel⟩ }

/-- A table of such claims, with its members and theirs in descending order, is told to have ended too soon wherever it
is cut short. -/
theorem cut_incomplete_of_placed :
    let c := Composite.table (.option (.shape .claims))
    let v : c.Carrier := ⟨[("", none), ("a", some placedClaims)], by decide +kernel⟩
    let w : Value := .object [("a", .object (placedClaims.own ++ [("exp", .null), ("aud", .bool true)])), ("", .null)]
    c.Every Shape.Valid v ∧ HasForm v w ∧ w.depth ≤ 127 ∧ w.isNumber = false ∧ c.Every Shape.Clear v ∧
      ∀ p, p <+: write w → p ≠ write w →
        ∃ e, (Cache.read p : Except CacheError c.Carrier) = .error e ∧ e.isIncomplete = true := by
  intro c v w
  have hclaims : placedClaims.Valid ∧ placedClaims.Clear := by
    constructor
    · exact List.forall_mem_cons.mpr ⟨.bool true, List.forall_mem_singleton.mpr .null⟩
    · refine List.forall_mem_cons.mpr ⟨⟨by decide, by decide, fun hname => absurd hname (by decide), ?_⟩,
        List.forall_mem_singleton.mpr ⟨by decide, by decide, fun _ => ⟨rfl, none, rfl⟩, ?_⟩⟩
      · exact fun hname => absurd hname (by decide)
      · exact fun hname => absurd hname (by decide)
  have hvalid : c.Every Shape.Valid v := by
    refine List.forall_mem_cons.mpr ⟨fun a ha => absurd ha (Option.not_mem_none a), List.forall_mem_singleton.mpr ?_⟩
    exact fun a ha => Option.some_inj.mp ha ▸ hclaims.1
  have hclear : c.Every Shape.Clear v := by
    refine List.forall_mem_cons.mpr ⟨fun a ha => absurd ha (Option.not_mem_none a), List.forall_mem_singleton.mpr ?_⟩
    exact fun a ha => Option.some_inj.mp ha ▸ hclaims.2
  have hplaced : HasForm placedClaims (.object (placedClaims.own ++ [("exp", .null), ("aud", .bool true)])) :=
    ⟨_, .swap _ _ _, rfl⟩
  have hform : HasForm v w :=
    ⟨[("a", some placedClaims, .object (placedClaims.own ++ [("exp", .null), ("aud", .bool true)])), ("", none, .null)],
      .swap _ _ _, rfl, List.forall_mem_cons.mpr ⟨hplaced, List.forall_mem_singleton.mpr rfl⟩⟩
  have hdepth : w.depth ≤ 127 := by decide +kernel
  obtain ⟨-, hiff⟩ := cut_incomplete_iff c v hvalid
  exact ⟨hvalid, hform, hdepth, rfl, hclear, (hiff w hform hdepth rfl).mpr hclear⟩

/-- Claims with another member of the name of a claim: cut short after the second of the names, they are taken for a
value of another shape, and not for one that ended too soon. -/
theorem cut_not_incomplete_after_name :
    let v : TokenClaims :=
      { jti := "a", sub := "b", exp := none, act := none, extra := ⟨[("jti", .null)], by decide +kernel⟩ }
    let p := Bytes.ofText "\x7b\"jti\":\"a\",\"sub\":\"b\",\"jti\":"
    v.Valid ∧ (toJson v).depth ≤ 127 ∧ (toJson v).isNumber = false ∧
      ∃ b, Encode.encode v = .ok b ∧ p <+: b ∧ p ≠ b ∧
        ¬∃ e, (Cache.read p : Except CacheError TokenClaims) = .error e ∧ e.isIncomplete = true := by
  intro v p
  have hvalid : v.Valid := List.forall_mem_singleton.mpr .null
  have hdepth : (toJson v).depth ≤ 127 := by decide +kernel
  have hbegins : p <+: write (toJson v) := by decide +kernel
  have hne : p ≠ write (toJson v) := by decide +kernel
  have hread : (Cache.read p : Except CacheError TokenClaims) = .error (.decoding .mismatch) := by rfl
  refine ⟨hvalid, hdepth, rfl, write (toJson v), rfl, hbegins, hne, ?_⟩
  rintro ⟨e, he, hincomplete⟩
  obtain rfl := Except.error.inj (hread.symm.trans he)
  exact Bool.false_ne_true hincomplete

end Gatehouse
