import Gatehouse.Json.Encoding
import Gatehouse.Proofs.Json.Canonical
import Gatehouse.Proofs.Token.Codec

/-!
# The claims by name are the members that are written

Whatever octets claims are read from, their other members have names of their own, whichever claims come first, come
twice or are missing. So every name is written at most once, and what is found under a name is what is written under it.
-/

namespace Gatehouse

open Json Scanner

namespace TokenClaims

/-! ## Claims that were read -/

/-- Other members with names of their own, read with the containers that are left within the claims. -/
def Tidy (extra : Table String Value) : Prop :=
  ∀ e ∈ extra.entries, Other e.1 ∧ e.2.Canonical (depthLimit - 1)

theorem Tidy.insert {extra : Table String Value} (h : Tidy extra) {name : String} (hname : Other name) {v : Value}
    (hv : v.Canonical (depthLimit - 1)) : Tidy (extra.insert name v) := by
  intro e he
  rcases Table.mem_insertEntry he with rfl | he
  · exact ⟨hname, hv⟩
  · exact h e he

/-- A claim of its own leaves the other members as they are. -/
theorem yields_own {α : Type} {name : String} {d : Draft} {current : Option α} {item : Scanner α} {store : α → Draft}
    (hown : member name d = memberInto (fun _ _ => field current item store) name d)
    (hstore : ∀ a, (store a).extra = d.extra) (h : Tidy d.extra) : Yields (member name d) fun d' => Tidy d'.extra := by
  rw [hown]
  cases current with
  | some a => exact yields_fail _
  | none =>
    change Yields (do colon; return store (← item)) _
    refine yields_after fun _ => yields_after fun a => yields_pure ?_
    exact (hstore a).symm ▸ h

theorem eq_of_not_other {name : String} (h : ¬Other name) :
    name = "jti" ∨ name = "sub" ∨ name = "exp" ∨ name = "act" := by
  simp only [Other] at h
  tauto

theorem yields_member (name : String) (d : Draft) (h : Tidy d.extra) :
    Yields (member name d) fun d' => Tidy d'.extra := by
  by_cases hname : Other name
  · rw [member_of_other hname]
    exact yields_after fun _ => (yields_value _).bind fun v hv => yields_pure (h.insert hname hv)
  · rcases eq_of_not_other hname with rfl | rfl | rfl | rfl
    · exact yields_own rfl (fun _ => rfl) h
    · exact yields_own rfl (fun _ => rfl) h
    · exact yields_own rfl (fun _ => rfl) h
    · exact yields_own rfl (fun _ => rfl) h

theorem extra_of_finish {d : Draft} {c : TokenClaims} (h : d.finish = some c) : c.extra = d.extra := by
  obtain ⟨jti, sub, exp, act, extra⟩ := d
  cases jti with
  | none => cases h
  | some jti =>
    cases sub with
    | none => cases h
    | some sub =>
      cases h
      rfl

theorem yields_complete {d : Draft} (h : Tidy d.extra) : Yields (complete d.finish) fun c => Tidy c.extra := by
  cases hfinish : d.finish with
  | none => exact yields_fail _
  | some c => exact yields_pure (extra_of_finish hfinish ▸ h)

theorem yields_scan : Yields scan fun c => Tidy c.extra := by
  have hstart : Tidy ({} : Draft).extra := fun e he => absurd he List.not_mem_nil
  refine yields_after fun c => ?_
  split
  · refine yields_after fun _ => ?_
    exact (yields_membersOf yields_member hstart).bind fun d hd => yields_complete hd
  · exact yields_after fun _ => yields_fail _

/-- Claims that were read have other members with names of their own. -/
theorem tidy_of_decode {b : Bytes} {c : TokenClaims} (h : decode b = .ok c) : Tidy c.extra := yields_scan.of_decode h

/-! ## Claims by name -/

/-- The members of the claims as they are written. -/
def members (c : TokenClaims) : List (String × Value) := c.own ++ c.extra.entries

theorem mem_own {c : TokenClaims} {name : String} {v : Value} :
    (name, v) ∈ c.own ↔ (name = "jti" ∧ toJson c.jti = v) ∨ (name = "sub" ∧ toJson c.sub = v) ∨
      (name = "exp" ∧ c.exp.map toJson = some v) ∨ (name = "act" ∧ c.act.map toJson = some v) := by
  obtain ⟨jti, sub, exp, act, extra⟩ := c
  cases exp <;> cases act <;> simp [own, eq_comm]

theorem not_other_of_mem_own {c : TokenClaims} {name : String} {v : Value} (h : (name, v) ∈ c.own) : ¬Other name := by
  rcases mem_own.mp h with ⟨rfl, -⟩ | ⟨rfl, -⟩ | ⟨rfl, -⟩ | ⟨rfl, -⟩ <;> decide

theorem claim_of_other (c : TokenClaims) {name : String} (h : Other name) : c.claim name = c.extra.get? name := by
  obtain ⟨hjti, hsub, hexp, hact⟩ := h
  simp [claim, hjti, hsub, hexp, hact]

/-- What is found under a name is what is written under it. -/
theorem claim_eq_some_iff {c : TokenClaims} (h : Tidy c.extra) (name : String) (v : Value) :
    c.claim name = some v ↔ (name, v) ∈ c.members := by
  rw [members, List.mem_append]
  by_cases hname : Other name
  · have hown : (name, v) ∉ c.own := fun hown => not_other_of_mem_own hown hname
    rw [claim_of_other c hname, or_iff_right hown, Table.mem_entries_iff]
  · have hextra : (name, v) ∉ c.extra.entries := fun hextra => hname (h _ hextra).1
    rw [or_iff_left hextra, mem_own]
    rcases eq_of_not_other hname with rfl | rfl | rfl | rfl <;> simp [claim]

/-- Every name is written at most once. -/
theorem nodup_members {c : TokenClaims} (h : Tidy c.extra) : (c.members.map Prod.fst).Nodup := by
  have hown : (c.own.map Prod.fst).Nodup := by
    obtain ⟨jti, sub, exp, act, extra⟩ := c
    cases exp <;> cases act <;> simp [own]
  rw [members, List.map_append, List.nodup_append]
  refine ⟨hown, Table.nodup_of_ascending c.extra.ascending, fun name hname name' hname' heq => ?_⟩
  obtain ⟨e, he, rfl⟩ := List.mem_map.mp hname
  obtain ⟨e', he', rfl⟩ := List.mem_map.mp hname'
  exact not_other_of_mem_own he (heq ▸ (h e' he').1)

/-! ## The claims as an object -/

theorem plain_of_mem_own {c : TokenClaims} {name : String} {v : Value} (h : (name, v) ∈ c.own) :
    v.Plain ∧ v.depth = 0 := by
  rcases mem_own.mp h with ⟨-, rfl⟩ | ⟨-, rfl⟩ | ⟨-, hv⟩ | ⟨-, hv⟩
  · exact ⟨.text c.jti, rfl⟩
  · exact ⟨.text c.sub, rfl⟩
  · obtain ⟨t, -, rfl⟩ := Option.map_eq_some_iff.mp hv
    have hlow := t.le_toInt
    have hhigh := t.toInt_lt
    exact ⟨.int ⟨by omega, by omega⟩, rfl⟩
  · obtain ⟨a, -, rfl⟩ := Option.map_eq_some_iff.mp hv
    exact ⟨.text a, rfl⟩

theorem takes_member {c : TokenClaims} (h : Tidy c.extra) (hfree : ∀ e ∈ c.extra.entries, e.2.FloatFree)
    {e : String × Value} (he : e ∈ c.members) : Takes (value (depthLimit - 1)) (write e.2) e.2 := by
  rcases List.mem_append.mp he with hown | hextra
  · obtain ⟨hplain, hdepth⟩ := plain_of_mem_own hown
    exact takes_value hplain (hdepth ▸ Nat.zero_le _)
  · obtain ⟨-, hdepth, hplain⟩ := h e hextra
    exact takes_value (hplain (hfree e hextra)) hdepth

/-- The members are read back as an object with these members, in whatever order they are written. -/
theorem exists_read_of_perm {c : TokenClaims} (h : Tidy c.extra) (hfree : ∀ e ∈ c.extra.entries, e.2.FloatFree)
    {listed : List (String × Value)} (hlisted : listed.Perm c.members) :
    ∃ read, decode (write (.object listed)) = .ok (Value.object read) ∧ read.Perm c.members := by
  have htakes := takes_object fun e he => takes_member h hfree (hlisted.subset he)
  have hnodup := (hlisted.map Prod.fst).nodup_iff.mpr (nodup_members h)
  exact ⟨_, htakes.decodeWith_eq, (Table.entries_ofList_perm hnodup).trans hlisted⟩

/-- Claims that were read have a name at most once among the members that are written, and are found under a name if
they are written under it. Without floating point numbers the written members are read as an object with just these
members, whatever order the other members take. -/
theorem claim_agrees_with_encoding {b : Bytes} {c : TokenClaims} (hread : decode b = .ok c) :
    ∃ members, Encode.encode c = .ok (write (.object members)) ∧ (members.map Prod.fst).Nodup ∧
      (∀ name v, c.claim name = some v ↔ (name, v) ∈ members) ∧
      ((∀ e ∈ c.extra.entries, e.2.FloatFree) → ∀ listed, listed.Perm members →
        ∃ read, decode (write (.object listed)) = .ok (Value.object read) ∧ read.Perm members) := by
  have htidy := tidy_of_decode hread
  exact ⟨c.members, rfl, nodup_members htidy, claim_eq_some_iff htidy, fun hfree _ => exists_read_of_perm htidy hfree⟩

/-- An object with no type of account and with a member that comes twice, between the claims of its own. -/
def repeatedText : Bytes :=
  Bytes.ofText "\x7b\"x\":1,\"act\":null,\"sub\":\"s\",\"jti\":\"t\",\"x\":\x7b\"b\":[true],\"a\":-5\x7d,\"exp\":7\x7d"

/-- The claims that are read from it. -/
def repeatedClaims : TokenClaims :=
  { jti := "t", sub := "s", exp := some 7, act := none,
    extra := ⟨[("x", .object [("a", Value.int (-5)), ("b", .array [.bool true])])], List.pairwise_singleton _ _⟩ }

theorem claim_agrees_with_encoding_after_repetition :
    decode repeatedText = .ok repeatedClaims ∧
      ∃ members read, Encode.encode repeatedClaims = .ok (write (.object members)) ∧
        decode (write (.object members)) = .ok (Value.object read) ∧
        ∀ name v, repeatedClaims.claim name = some v ↔ (name, v) ∈ read := by
  have hdecode : decode repeatedText = .ok repeatedClaims := rfl
  have hfree : ∀ e ∈ repeatedClaims.extra.entries, e.2.FloatFree := by
    intro e he
    obtain rfl := List.mem_singleton.mp he
    refine .object fun m hm => ?_
    rcases List.mem_pair.mp hm with rfl | rfl
    · exact .int (-5)
    · refine .array fun v hv => ?_
      obtain rfl := List.mem_singleton.mp hv
      exact .bool true
  obtain ⟨members, hencode, -, hclaim, hread⟩ := claim_agrees_with_encoding hdecode
  obtain ⟨read, hobject, hperm⟩ := hread hfree members (.refl _)
  exact ⟨hdecode, members, read, hencode, hobject, fun name v => (hclaim name v).trans hperm.mem_iff.symm⟩

end TokenClaims

end Gatehouse
