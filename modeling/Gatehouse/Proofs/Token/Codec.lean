import Gatehouse.Proofs.Json.LegibleObject
import Gatehouse.Proofs.Time.Rfc3339
import Gatehouse.Token.Claims
import Gatehouse.Token.Record

/-!
# Token records and claims are read back

A token record is read back if its instants exist and lie in no leap second. Claims are read back if their other members
have names of their own: a member with the name of a claim would be read as that claim.
-/

namespace Gatehouse

open Json Scanner

/-! ## Kinds -/

theorem TokenKind.readsBack (k : TokenKind) : ReadsBack k := by
  have hname : TokenKind.names.lookup k.label = some k := by cases k <;> rfl
  exact takes_choice hname

theorem AccountType.readsBack (t : AccountType) : ReadsBack t := by
  have hname : AccountType.names.lookup t.label = some t := by cases t <;> rfl
  exact takes_choice hname

/-! ## Token records -/

/-- An instant that exists and lies in no leap second. -/
def Instant.Regular (t : Instant) : Prop := t.isLeap = false ∧ inRange t.seconds = true

instance (t : Instant) : Decidable t.Regular := inferInstanceAs (Decidable (_ ∧ _))

theorem Instant.readsBack {t : Instant} (h : t.Regular) : ReadsBack t := by
  intro rest _
  have hstring := run_string (Rfc3339.text t) rest
  have hparse := Rfc3339.parse?_text h.1 h.2
  change (FromJson.scan : Scanner Instant).run (writeText (Rfc3339.text t) ++ rest) = _
  simp only [FromJson.scan]
  rw [run_bind_ok hstring, hparse]
  rfl

/-- A record all of whose instants are regular. -/
def TokenRecord.Regular (r : TokenRecord) : Prop :=
  (∀ t ∈ r.expiresAt, t.Regular) ∧ (∀ t ∈ r.revokedAt, t.Regular) ∧ r.createdAt.Regular

theorem TokenRecord.readsBack {r : TokenRecord} (h : r.Regular) : ReadsBack r := by
  obtain ⟨hexpires, hrevoked, hcreated⟩ := h
  have hexpiresAt : ReadsBack r.expiresAt := readsBack_option fun t ht => ⟨Instant.readsBack (hexpires t ht), nofun⟩
  have hrevokedAt : ReadsBack r.revokedAt := readsBack_option fun t ht => ⟨Instant.readsBack (hrevoked t ht), nofun⟩
  refine takes_record (?_ : Folds (memberInto fields) _ {}
    ⟨some r.id, some r.kind, some r.subject, some r.expiresAt, some r.revokedAt, some r.createdAt⟩) rfl
  refine .field rfl (readsBack_string r.id) ?_
  refine .field rfl r.kind.readsBack ?_
  refine .field rfl (readsBack_string r.subject) ?_
  refine .field rfl hexpiresAt ?_
  refine .field rfl hrevokedAt ?_
  refine .field rfl (Instant.readsBack hcreated) ?_
  exact .nil _

/-! ## Claims -/

namespace TokenClaims

/-- A name that no claim of its own has. -/
def Other (name : String) : Prop := name ≠ "jti" ∧ name ≠ "sub" ∧ name ≠ "exp" ∧ name ≠ "act"

instance (name : String) : Decidable (Other name) := inferInstanceAs (Decidable (_ ∧ _))

/-- Claims whose other members have names of their own and no floating point numbers. -/
def Regular (c : TokenClaims) : Prop := ∀ e ∈ c.extra.entries, Other e.1 ∧ e.2.Plain

theorem member_of_other {name : String} (h : Other name) (d : Draft) :
    member name d = do colon; return { d with extra := d.extra.insert name (← value (depthLimit - 1)) } := by
  obtain ⟨hjti, hsub, hexp, hact⟩ := h
  simp [member, hjti, hsub, hexp, hact]

/-- A claim of its own that the draft does not have yet and that is written next is read next. -/
theorem chain_own {α : Type} {name : String} {d d' : Draft} {item : Scanner α} {store : α → Draft} {v : Value} {a : α}
    {l : List (String × Value)} (hown : member name d = memberInto (fun _ _ => field none item store) name d)
    (h : Legible item v) (htakes : Takes item (write v) a) (hl : Chain member l (store a) d') :
    Chain member ((name, v) :: l) d d' := by
  have hread : member name d = do colon; return store (← item) := hown
  exact .cons_read hread (h.map store) (htakes.map store) hl

/-- The claims that must be there are read. -/
theorem chain_required (jti sub : String) :
    Chain member [("jti", toJson jti), ("sub", toJson sub)] {} { jti := some jti, sub := some sub } :=
  chain_own rfl (legible_string jti) (readsBack_string jti)
    (chain_own rfl (legible_string sub) (readsBack_string sub) (.nil _))

/-- The expiry is read if it is there. -/
theorem chain_exp (jti sub : String) (exp : Option Int64) :
    Chain member (exp.map fun t => ("exp", toJson t)).toList { jti := some jti, sub := some sub }
      { jti := some jti, sub := some sub, exp := exp.map some } := by
  cases exp with
  | none => exact .nil _
  | some t =>
    have hread : ReadsBack (some t) := readsBack_option fun t _ => ⟨readsBack_int64 t, nofun⟩
    exact chain_own rfl (legible_int64 t).option hread (.nil _)

/-- The type of account is read if it is there. -/
theorem chain_act (jti sub : String) (exp : Option (Option Int64)) (act : Option String) :
    Chain member (act.map fun a => ("act", toJson a)).toList { jti := some jti, sub := some sub, exp := exp }
      { jti := some jti, sub := some sub, exp := exp, act := act.map some } := by
  cases act with
  | none => exact .nil _
  | some a =>
    have hread : ReadsBack (some a) := readsBack_option fun a _ => ⟨readsBack_string a, nofun⟩
    exact chain_own rfl (legible_string a).option hread (.nil _)

theorem chain_own_claims (c : TokenClaims) :
    Chain member c.own {} { jti := some c.jti, sub := some c.sub, exp := c.exp.map some, act := c.act.map some } :=
  ((chain_required c.jti c.sub).append (chain_exp c.jti c.sub c.exp)).append
    (chain_act c.jti c.sub (c.exp.map some) c.act)

/-- The other members are put into the table of the draft. -/
theorem folds_extra {l : List (String × Value)}
    (h : ∀ e ∈ l, Other e.1 ∧ Takes (value (depthLimit - 1)) (write e.2) e.2) (d : Draft) :
    Folds member l d { d with extra := l.foldl (fun t e => t.insert e.1 e.2) d.extra } := by
  induction l generalizing d with
  | nil => exact .nil d
  | cons e l ih =>
    obtain ⟨hother, htakes⟩ := h e List.mem_cons_self
    have hvalue := (htakes.map fun v => { d with extra := d.extra.insert e.1 v }).colon
    rw [← member_of_other hother] at hvalue
    exact .cons hvalue (ih (fun e' he => h e' (List.mem_cons_of_mem _ he)) _)

/-- The draft that the written claims lead to. -/
def draft (c : TokenClaims) : Draft :=
  { jti := some c.jti, sub := some c.sub, exp := c.exp.map some, act := c.act.map some, extra := c.extra }

theorem finish_draft (c : TokenClaims) : c.draft.finish = some c := by
  obtain ⟨jti, sub, exp, act, extra⟩ := c
  cases exp <;> cases act <;> rfl

/-- The claims that are written lead to the draft, in whatever order the other members come. -/
theorem folds_draft {c : TokenClaims} {others : List (String × Value)} (hothers : others.Perm c.extra.entries)
    (h : ∀ e ∈ others, Other e.1 ∧ Takes (value (depthLimit - 1)) (write e.2) e.2) :
    Folds member (c.own ++ others) {} c.draft := by
  have htable : others.foldl (fun t e => t.insert e.1 e.2) Table.empty = c.extra := Table.ofList_of_perm hothers
  have hextra := folds_extra h { c.draft with extra := Table.empty }
  simp only [htable] at hextra
  exact c.chain_own_claims.folds.append hextra

theorem comesBack {c : TokenClaims} (h : c.Regular) : ComesBack c := by
  rintro _ ⟨others, hothers, rfl⟩ hdepth
  have hextra : ∀ e ∈ others, Other e.1 ∧ Takes (value (depthLimit - 1)) (write e.2) e.2 := by
    intro e he
    obtain ⟨hother, hplain⟩ := h e (hothers.subset he)
    have hmembers := Value.depth_le_of_mem_members (List.mem_append_right c.own he)
    exact ⟨hother, takes_value hplain (Nat.le_trans hmembers (Nat.le_sub_one_of_lt hdepth))⟩
  intro rest hrest
  change scan.run (write (.object (c.own ++ others)) ++ rest) = _
  rw [write_object_append, scan, run_opened (by decide),
    run_bind_ok ((folds_draft hothers hextra).run_membersOf rest), finish_draft]
  rfl

end TokenClaims

end Gatehouse
