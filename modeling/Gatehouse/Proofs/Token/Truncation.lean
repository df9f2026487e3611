import Gatehouse.Proofs.Json.Refusal
import Gatehouse.Proofs.Token.Codec

/-!
# Token records and claims that are cut short

A token record that is cut short is told as such, whatever its instants are. So are claims, if every other member can be
read along with them. A member that takes the name of a claim that is there, or whose value is not of that claim's type,
is refused as soon as it is met, whether the claims end there or not.
-/

namespace Gatehouse

open Json Scanner

/-! ## Token records -/

theorem TokenKind.legible (k : TokenKind) : Legible (FromJson.scan : Scanner TokenKind) (toJson k) := by
  have hname : TokenKind.names.lookup k.label = some k := by cases k <;> rfl
  exact legible_choice hname

theorem AccountType.legible (t : AccountType) : Legible (FromJson.scan : Scanner AccountType) (toJson t) := by
  have hname : AccountType.names.lookup t.label = some t := by cases t <;> rfl
  exact legible_choice hname

/-- An instant that exists, be it in a leap second. -/
def Instant.Valid (t : Instant) : Prop := t.nanos < 2000000000 ∧ inRange t.seconds = true

instance (t : Instant) : Decidable t.Valid := inferInstanceAs (Decidable (_ ∧ _))

theorem Instant.legible {t : Instant} (h : t.Valid) : Legible (FromJson.scan : Scanner Instant) (toJson t) where
  takes := by
    obtain ⟨t', ht'⟩ := Rfc3339.exists_parse?_text h.1 h.2
    refine ⟨t', fun rest _ => ?_⟩
    change (FromJson.scan : Scanner Instant).run (writeText (Rfc3339.text t) ++ rest) = _
    simp only [FromJson.scan]
    rw [run_bind_ok (run_string (Rfc3339.text t) rest), ht']
    rfl
  cut _ hp := .inl ((lacks_string (Rfc3339.text t) hp).bind _)

/-- A record all of whose instants exist. -/
def TokenRecord.Valid (r : TokenRecord) : Prop :=
  (∀ t ∈ r.expiresAt, t.Valid) ∧ (∀ t ∈ r.revokedAt, t.Valid) ∧ r.createdAt.Valid

theorem TokenRecord.legible {r : TokenRecord} (h : r.Valid) :
    Legible (FromJson.scan : Scanner TokenRecord) (toJson r) := by
  obtain ⟨hexpires, hrevoked, hcreated⟩ := h
  have hexpiresAt := legible_option (fun t ht => Instant.legible (hexpires t ht)) rfl
  have hrevokedAt := legible_option (fun t ht => Instant.legible (hrevoked t ht)) rfl
  have hcreatedAt := Instant.legible hcreated
  -- what is read of an instant need not be the instant
  obtain ⟨expiresAt, hreadExpires⟩ := hexpiresAt.takes
  obtain ⟨revokedAt, hreadRevoked⟩ := hrevokedAt.takes
  obtain ⟨createdAt, hreadCreated⟩ := hcreatedAt.takes
  refine legible_record (?_ : Chain (memberInto fields) _ {}
    ⟨some r.id, some r.kind, some r.subject, some expiresAt, some revokedAt, some createdAt⟩) rfl
  refine .field rfl (legible_string r.id) (readsBack_string r.id) ?_
  refine .field rfl r.kind.legible r.kind.readsBack ?_
  refine .field rfl (legible_string r.subject) (readsBack_string r.subject) ?_
  refine .field rfl hexpiresAt hreadExpires ?_
  refine .field rfl hrevokedAt hreadRevoked ?_
  refine .field rfl hcreatedAt hreadCreated ?_
  exact .nil _

/-! ## Claims -/

namespace TokenClaims

/-- A member that can be read along with the claims, given whether the expiry and the type of account are there: one
with the name of either takes its place, and so must have a value of its type. -/
def Fits (exp act : Bool) (e : String × Value) : Prop :=
  e.1 ≠ "jti" ∧ e.1 ≠ "sub" ∧ (e.1 = "exp" → exp = false ∧ ∃ t : Option Int64, e.2 = toJson t) ∧
    (e.1 = "act" → act = false ∧ ∃ a : Option String, e.2 = toJson a)

/-- Claims all of whose other members can be read along with them. -/
def Clear (c : TokenClaims) : Prop := ∀ e ∈ c.extra.entries, Fits c.exp.isSome c.act.isSome e

/-- Claims whose other members have no floating point numbers. -/
def Valid (c : TokenClaims) : Prop := ∀ e ∈ c.extra.entries, e.2.Plain

theorem Fits.other {exp act : Bool} {e : String × Value} (h : Fits exp act e) (hexp : e.1 ≠ "exp")
    (hact : e.1 ≠ "act") : Other e.1 :=
  ⟨h.1, h.2.1, hexp, hact⟩

/-- A claim that is there stays there. -/
structure Draft.Extends (d' d : Draft) : Prop where
  jti : d.jti.isSome = true → d'.jti.isSome = true
  sub : d.sub.isSome = true → d'.sub.isSome = true
  exp : d.exp.isSome = true → d'.exp.isSome = true
  act : d.act.isSome = true → d'.act.isSome = true

theorem Draft.Extends.trans {d d' d'' : Draft} (h' : d''.Extends d') (h : d'.Extends d) : d''.Extends d :=
  ⟨fun hd => h'.jti (h.jti hd), fun hd => h'.sub (h.sub hd), fun hd => h'.exp (h.exp hd), fun hd => h'.act (h.act hd)⟩

/-- A member that fits is read. Only the claim whose name it has may be there after it and not before. -/
theorem Fits.exists_read {d : Draft} {name : String} {v : Value} (h : Fits d.exp.isSome d.act.isSome (name, v))
    (hlegible : Legible (value (depthLimit - 1)) v) :
    ∃ (read : Scanner Draft) (d' : Draft), member name d = (do colon; read) ∧ Legible read v ∧
      Takes read (write v) d' ∧ d'.Extends d ∧ (name ≠ "exp" → d'.exp = d.exp) ∧ (name ≠ "act" → d'.act = d.act) := by
  obtain ⟨jti, sub, exp, act, extra⟩ := d
  by_cases hexp : name = "exp"
  · subst hexp
    obtain ⟨hnone, t, rfl⟩ := h.2.2.1 rfl
    obtain rfl := Option.not_isSome_iff_eq_none.mp (Bool.eq_false_iff.mp hnone)
    have hlegible := legible_option (o := t) (fun n _ => legible_int64 n) rfl
    obtain ⟨a, ha⟩ := hlegible.takes
    refine ⟨_, _, rfl, hlegible.map _, ha.map _, ⟨id, id, fun _ => rfl, id⟩, fun hne => absurd rfl hne, fun _ => rfl⟩
  · by_cases hact : name = "act"
    · subst hact
      obtain ⟨hnone, a, rfl⟩ := h.2.2.2 rfl
      obtain rfl := Option.not_isSome_iff_eq_none.mp (Bool.eq_false_iff.mp hnone)
      have hlegible := legible_option (o := a) (fun s _ => legible_string s) rfl
      obtain ⟨a, ha⟩ := hlegible.takes
      refine ⟨_, _, rfl, hlegible.map _, ha.map _, ⟨id, id, id, fun _ => rfl⟩, fun _ => rfl, fun hne => absurd rfl hne⟩
    · obtain ⟨a, ha⟩ := hlegible.takes
      refine ⟨_, _, member_of_other (h.other hexp hact) _, hlegible.map _, ha.map _, ⟨id, id, id, id⟩, fun _ => rfl,
        fun _ => rfl⟩

/-- Members of different names that fit are read one after another, in whatever order they are written. -/
theorem exists_chain_extra {l : List (String × Value)} (hnames : l.Pairwise fun e e' => e.1 ≠ e'.1)
    (hlegible : ∀ e ∈ l, Legible (value (depthLimit - 1)) e.2) {d : Draft}
    (hfits : ∀ e ∈ l, Fits d.exp.isSome d.act.isSome e) : ∃ d', Chain member l d d' ∧ d'.Extends d := by
  induction l generalizing d with
  | nil => exact ⟨d, .nil d, id, id, id, id⟩
  | cons e l ih =>
    obtain ⟨hfirst, hnames⟩ := List.pairwise_cons.mp hnames
    obtain ⟨read, d', hread, hmember, htakes, hextends, hexp, hact⟩ :=
      (hfits e List.mem_cons_self).exists_read (hlegible e List.mem_cons_self)
    have hlater : ∀ e' ∈ l, Fits d'.exp.isSome d'.act.isSome e' := by
      intro e' he'
      obtain ⟨hjti, hsub, hfitExp, hfitAct⟩ := hfits e' (List.mem_cons_of_mem _ he')
      have hne : e.1 ≠ e'.1 := hfirst e' he'
      refine ⟨hjti, hsub, fun heq => ?_, fun heq => ?_⟩
      · rw [hexp (heq ▸ hne)]
        exact hfitExp heq
      · rw [hact (heq ▸ hne)]
        exact hfitAct heq
    obtain ⟨d'', htail, hextends'⟩ := ih hnames (fun e' he' => hlegible e' (List.mem_cons_of_mem _ he')) hlater
    exact ⟨d'', .cons_read hread hmember htakes htail, hextends'.trans hextends⟩

/-- The other members have different names, in whatever order they come. -/
theorem names_ne {c : TokenClaims} {others : List (String × Value)} (hothers : others.Perm c.extra.entries) :
    others.Pairwise fun e e' => e.1 ≠ e'.1 :=
  hothers.symm.pairwise (c.extra.ascending.imp String.ne_of_lt) Ne.symm

theorem legible_extra {c : TokenClaims} (hvalid : c.Valid) {others : List (String × Value)}
    (hothers : others.Perm c.extra.entries) (hdepth : (Value.object (c.own ++ others)).depth ≤ depthLimit) :
    ∀ e ∈ others, Legible (value (depthLimit - 1)) e.2 := by
  intro e he
  have hmembers := Value.depth_le_of_mem_members (List.mem_append_right c.own he)
  exact legible_value (hvalid e (hothers.subset he)) (Nat.le_trans hmembers (Nat.le_sub_one_of_lt hdepth))

/-- Members that fit are read after the claims of its own. -/
theorem exists_chain_own (c : TokenClaims) {l : List (String × Value)}
    (hnames : l.Pairwise fun e e' => e.1 ≠ e'.1) (hlegible : ∀ e ∈ l, Legible (value (depthLimit - 1)) e.2)
    (h : ∀ e ∈ l, Fits c.exp.isSome c.act.isSome e) :
    ∃ d', Chain member (c.own ++ l) {} d' ∧
      d'.Extends { jti := some c.jti, sub := some c.sub, exp := c.exp.map some, act := c.act.map some } := by
  have hown := c.chain_own_claims
  obtain ⟨d', hextra, hextends⟩ := exists_chain_extra hnames hlegible
    (d := { jti := some c.jti, sub := some c.sub, exp := c.exp.map some, act := c.act.map some })
    (by simpa only [Option.isSome_map] using h)
  exact ⟨d', hown.append hextra, hextends⟩

/-- Claims all of whose other members fit are told when they are cut short. -/
theorem legible {c : TokenClaims} (hvalid : c.Valid) (h : c.Clear) : LegibleForms c := by
  rintro _ ⟨others, hothers, rfl⟩ hdepth
  obtain ⟨d, hchain, hextends⟩ := c.exists_chain_own (names_ne hothers) (legible_extra hvalid hothers hdepth)
    fun e he => h e (hothers.subset he)
  obtain ⟨jti, hjti⟩ := Option.isSome_iff_exists.mp (hextends.jti rfl)
  obtain ⟨sub, hsub⟩ := Option.isSome_iff_exists.mp (hextends.sub rfl)
  have hfinish : d.finish = some ⟨jti, sub, d.exp.join, d.act.join, d.extra⟩ := by
    rw [Draft.finish, hjti, hsub]
    rfl
  refine ⟨⟨⟨jti, sub, d.exp.join, d.act.join, d.extra⟩, fun rest _ => ?_⟩, fun p hp => .inl ?_⟩
  · change scan.run (write (.object (c.own ++ others)) ++ rest) = _
    rw [write_object_append, scan, run_opened (by decide), run_bind_ok (hchain.folds.run_membersOf rest), hfinish]
    rfl
  · change Lacks scan p
    rw [write, List.cons_append] at hp
    exact lacks_opened (by decide) hp fun _ hq => (hchain.lacks_membersOf hq).bind _

/-! ## Claims that are refused -/

/-- A claim that is there is not read again. -/
theorem run_repeated {α : Type} {name : String} {d : Draft} {current : Option α} {item : Scanner α}
    {store : α → Draft} (hown : member name d = memberInto (fun _ _ => field current item store) name d)
    (h : current.isSome = true) (s : Bytes) : (member name d).run s = .error .mismatch := by
  obtain ⟨a, rfl⟩ := Option.isSome_iff_exists.mp h
  rw [hown]
  rfl

/-- A claim is not read from a value of another type. -/
theorem run_own_error {α : Type} {name : String} {d : Draft} {current : Option α} {item : Scanner α}
    {store : α → Draft} (hown : member name d = memberInto (fun _ _ => field current item store) name d) {s : Bytes}
    (h : item.run s = .error .mismatch) : (member name d).run (0x3A :: s) = .error .mismatch := by
  cases current with
  | some a => exact run_repeated hown rfl _
  | none =>
    have hread : member name d = do colon; return store (← item) := hown
    rw [hread, run_bind_ok (run_colon s)]
    exact run_bind_error h

/-- What is no expiry is not read as one. -/
theorem run_exp_of_not {v : Value} (h : v.Plain) (hother : ∀ t : Option Int64, v ≠ toJson t) :
    (FromJson.scan : Scanner (Option Int64)).run (write v) = .error .mismatch := by
  have hinteger : (integer (-9223372036854775808) 9223372036854775807).run (write v ++ []) = .error .mismatch := by
    refine run_integer_of_not h (fun n hn hrange => hother (some (Int64.ofInt n)) ?_) closes_nil
    have hback : (Int64.ofInt n).toInt = n := Int64.toInt_ofInt_of_le hrange.1 (Int.lt_add_one_of_le hrange.2)
    rw [hn]
    exact congrArg Value.int hback.symm
  rw [← List.append_nil (write v)]
  exact run_option_error (hother none) (run_bind_error hinteger)

/-- What is no type of account is not read as one. -/
theorem run_act_of_not {v : Value} (h : v.Plain) (hother : ∀ a : Option String, v ≠ toJson a) :
    (FromJson.scan : Scanner (Option String)).run (write v) = .error .mismatch := by
  have hstring := run_string_of_not h (fun s => hother (some s)) closes_nil
  rw [← List.append_nil (write v)]
  exact run_option_error (hother none) hstring

/-- A member that does not fit is refused. -/
theorem run_member_of_not_fits {exp act : Bool} {e : String × Value} (h : ¬Fits exp act e) (hplain : e.2.Plain)
    {d : Draft} (hjti : d.jti.isSome = true) (hsub : d.sub.isSome = true) (hexp : exp = true → d.exp.isSome = true)
    (hact : act = true → d.act.isSome = true) : (member e.1 d).run (0x3A :: write e.2) = .error .mismatch := by
  obtain ⟨name, v⟩ := e
  by_cases hnameJti : name = "jti"
  · subst hnameJti
    exact run_repeated rfl hjti _
  by_cases hnameSub : name = "sub"
  · subst hnameSub
    exact run_repeated rfl hsub _
  by_cases hnameExp : name = "exp"
  · subst hnameExp
    cases hthere : exp with
    | true => exact run_repeated rfl (hexp hthere) _
    | false =>
      refine run_own_error rfl (run_exp_of_not hplain fun t ht => h ?_)
      exact ⟨hnameJti, hnameSub, fun _ => ⟨hthere, t, ht⟩, fun hname => absurd hname (show "exp" ≠ "act" by decide)⟩
  by_cases hnameAct : name = "act"
  · subst hnameAct
    cases hthere : act with
    | true => exact run_repeated rfl (hact hthere) _
    | false =>
      refine run_own_error rfl (run_act_of_not hplain fun a ha => h ?_)
      exact ⟨hnameJti, hnameSub, fun hname => absurd hname hnameExp, fun _ => ⟨hthere, a, ha⟩⟩
  · exact absurd ⟨hnameJti, hnameSub, fun hname => absurd hname hnameExp, fun hname => absurd hname hnameAct⟩ h

/-- Claims of which some other member does not fit are refused, at the first of them that is written. -/
theorem refuses {c : TokenClaims} (hvalid : c.Valid) (h : ¬c.Clear) {w : Value} (hform : HasForm c w)
    (hdepth : w.depth ≤ depthLimit) : Refuses (FromJson.scan : Scanner TokenClaims) w := by
  obtain ⟨others, hothers, rfl⟩ := hform
  have hunclear : ¬∀ e ∈ others, Fits c.exp.isSome c.act.isSome e := fun hfits =>
    h fun e he => hfits e (hothers.symm.subset he)
  obtain ⟨before, e, after, rfl, hbefore, hfits⟩ := exists_first hunclear
  obtain ⟨d, hchain, hextends⟩ := c.exists_chain_own (List.pairwise_append.mp (names_ne hothers)).1
    (fun e' he' => legible_extra hvalid hothers hdepth e' (List.mem_append_left _ he')) hbefore
  have hplain : e.2.Plain := hvalid e (hothers.subset (List.mem_append_right _ List.mem_cons_self))
  have hmember := run_member_of_not_fits hfits hplain (hextends.jti rfl) (hextends.sub rfl)
    (fun hexp => hextends.exp (by rwa [Option.isSome_map])) (fun hact => hextends.act (by rwa [Option.isSome_map]))
  obtain ⟨p, hp, hrun⟩ := hchain.folds.refuses_membersOf List.prefix_rfl hmember after
  rw [List.append_assoc] at hp
  refine ⟨0x7B :: p, hp, ?_⟩
  change scan.run (0x7B :: p) = _
  rw [scan, run_opened (by decide)]
  exact run_bind_error hrun

end TokenClaims

end Gatehouse
