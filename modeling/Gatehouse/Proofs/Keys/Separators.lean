import Gatehouse.OneTimeCode
import Gatehouse.Proofs.Keys

/-!
# Separators within keys

Keys put the texts they are made of one after another with separators between them, and do not mark a separator that is
part of a text. So different texts can make one key (`code_collides`, `limiterStem_collides`), and a limiter can find
attempts of another one under its own text. Where the texts are free of the separators that end them, the key tells them
all (`code_inj`), and of two limiters neither finds attempts of the other (`eq_of_limiterStem_startsWith`).
-/

namespace Gatehouse

/-! ## Lists with a separator -/

section Lists

variable {α : Type} {sep : α} {a b x y : List α}

/-- Two lists that are equal have the same part before their first separator, and the same part after it. -/
theorem append_cons_inj_of_first (ha : sep ∉ a) (hb : sep ∉ b) (h : a ++ sep :: x = b ++ sep :: y) :
    a = b ∧ x = y := by
  induction a generalizing b with
  | nil =>
    cases b with
    | nil => exact ⟨rfl, (List.cons.inj h).2⟩
    | cons c b => exact absurd ((List.cons.inj h).1 ▸ List.mem_cons_self) hb
  | cons c a ih =>
    cases b with
    | nil => exact absurd ((List.cons.inj h).1 ▸ List.mem_cons_self) ha
    | cons d b =>
      obtain ⟨rfl, htail⟩ := List.cons.inj h
      have ha' : sep ∉ a := fun hm => ha (List.mem_cons_of_mem _ hm)
      have hb' : sep ∉ b := fun hm => hb (List.mem_cons_of_mem _ hm)
      obtain ⟨rfl, hxy⟩ := ih ha' hb' htail
      exact ⟨rfl, hxy⟩

/-- Two lists that are equal have the same part after their last separator, and the same part before it. -/
theorem append_cons_inj_of_last (hx : sep ∉ x) (hy : sep ∉ y) (h : a ++ sep :: x = b ++ sep :: y) :
    a = b ∧ x = y := by
  have hrev : x.reverse ++ sep :: a.reverse = y.reverse ++ sep :: b.reverse := by
    have h' := congrArg List.reverse h
    simpa using h'
  obtain ⟨hxy, hab⟩ :=
    append_cons_inj_of_first (fun hm => hx (List.mem_reverse.mp hm)) (fun hm => hy (List.mem_reverse.mp hm)) hrev
  exact ⟨List.reverse_inj.mp hab, List.reverse_inj.mp hxy⟩

/-- If one list starts with another up to and with its first separator, that is the first separator of both. -/
theorem eq_of_append_cons_prefix (ha : sep ∉ a) (hb : sep ∉ b) (h : a ++ sep :: x <+: b ++ sep :: y) :
    a = b ∧ x <+: y := by
  obtain ⟨t, ht⟩ := h
  rw [List.append_assoc, List.cons_append] at ht
  obtain ⟨hab, hxy⟩ := append_cons_inj_of_first ha hb ht
  exact ⟨hab, ⟨t, hxy⟩⟩

/-- What is in a joined list is in one of the lists, or in what stands between them. -/
theorem mem_intercalate {c : α} {l : List (List α)} (h : c ∈ [sep].intercalate l) : c = sep ∨ ∃ w ∈ l, c ∈ w := by
  induction l with
  | nil => exact absurd h List.not_mem_nil
  | cons w l ih =>
    cases l with
    | nil => exact .inr ⟨w, List.mem_cons_self, by simpa using h⟩
    | cons w' l =>
      rw [List.intercalate_cons_cons, List.mem_append, List.mem_append] at h
      rcases h with (h | h) | h
      · exact .inr ⟨w, List.mem_cons_self, h⟩
      · exact .inl (List.mem_singleton.mp h)
      · exact (ih h).imp_right fun ⟨v, hv, hc⟩ => ⟨v, List.mem_cons_of_mem _ hv, hc⟩

end Lists

namespace Keys

/-! ## Keys of codes -/

/-- A medium that ends in an underscore and what follows, and one whose credential starts with what follows, have the
same keys. -/
theorem code_collides (medium more credential c : String) :
    code (medium ++ "_" ++ more) credential c = code medium (more ++ "_" ++ credential) c := by
  simp [code, codeStem, String.append_assoc]

/-- The key of a code tells medium, credential and code, if there is no underscore in the medium and no colon in the
code. -/
theorem code_inj {medium medium' credential credential' c c' : String} (hm : '_' ∉ medium.toList)
    (hm' : '_' ∉ medium'.toList) (hc : ':' ∉ c.toList) (hc' : ':' ∉ c'.toList)
    (h : code medium credential c = code medium' credential' c') :
    medium = medium' ∧ credential = credential' ∧ c = c' := by
  have hlist : medium.toList ++ '_' :: (credential.toList ++ ':' :: c.toList) =
      medium'.toList ++ '_' :: (credential'.toList ++ ':' :: c'.toList) := by
    have h' := congrArg String.toList h
    simpa [code, codeStem] using h'
  obtain ⟨hmedium, hrest⟩ := append_cons_inj_of_first hm hm' hlist
  obtain ⟨hcredential, hcode⟩ := append_cons_inj_of_last hc hc' hrest
  exact ⟨String.toList_injective hmedium, String.toList_injective hcredential, String.toList_injective hcode⟩

/-! ## Keys of attempts -/

/-- Ids that are joined to one make the same keys. -/
theorem limiterStem_collides (space a b : String) (ids : List String) :
    limiterStem space ((a ++ "_" ++ b) :: ids) = limiterStem space (a :: b :: ids) := by
  simp [limiterStem, String.append_assoc]

/-- Texts that tell a limiter by its keys: no colon in the name space, at least one id, and in the ids neither a colon
nor an underscore. -/
structure Plain (space : String) (ids : List String) : Prop where
  space : ':' ∉ space.toList
  ne_nil : ids ≠ []
  colon : ∀ id ∈ ids, ':' ∉ id.toList
  underscore : ∀ id ∈ ids, '_' ∉ id.toList

variable {space space' : String} {ids ids' : List String}

theorem Plain.joined (h : Plain space ids) : ':' ∉ (String.intercalate "_" ids).toList := by
  intro hmem
  rw [String.toList_intercalate] at hmem
  change ':' ∈ ['_'].intercalate (ids.map String.toList) at hmem
  rcases mem_intercalate hmem with heq | ⟨w, hw, hcolon⟩
  · exact absurd heq (by decide)
  · obtain ⟨id, hid, rfl⟩ := List.mem_map.mp hw
    exact h.colon id hid hcolon

/-- Ids without underscores can be read off their joined text, if there are any. -/
theorem intercalate_inj (hne : ids ≠ []) (hne' : ids' ≠ []) (h : ∀ id ∈ ids, '_' ∉ id.toList)
    (h' : ∀ id ∈ ids', '_' ∉ id.toList) (heq : String.intercalate "_" ids = String.intercalate "_" ids') :
    ids = ids' := by
  have hsplit {l : List String} (hl : l ≠ []) (hfree : ∀ id ∈ l, '_' ∉ id.toList) :
      (String.intercalate "_" l).toList.splitOn '_' = l.map String.toList := by
    rw [String.toList_intercalate]
    refine List.splitOn_intercalate '_' ?_ ?_
    · intro w hw
      obtain ⟨id, hid, rfl⟩ := List.mem_map.mp hw
      exact hfree id hid
    · simpa using hl
  refine (List.map_inj_right fun a b hab => String.toList_injective hab).mp ?_
  rw [← hsplit hne h, ← hsplit hne' h', heq]

/-- A limiter finds attempts under its text only if they are its own. -/
theorem eq_of_limiterStem_startsWith {rest : String} (h : Plain space ids) (h' : Plain space' ids')
    (hs : startsWith (limiterStem space ids ++ ":") (limiterStem space' ids' ++ ":" ++ rest) = true) :
    space = space' ∧ ids = ids' := by
  have hlist : space.toList ++ ':' :: ((String.intercalate "_" ids).toList ++ ':' :: []) <+:
      space'.toList ++ ':' :: ((String.intercalate "_" ids').toList ++ ':' :: rest.toList) := by
    have hs' := startsWith_iff.mp hs
    simpa [limiterStem] using hs'
  obtain ⟨hspace, hrest⟩ := eq_of_append_cons_prefix h.space h'.space hlist
  obtain ⟨hjoined, -⟩ := eq_of_append_cons_prefix h.joined h'.joined hrest
  exact ⟨String.toList_injective hspace,
    intercalate_inj h.ne_nil h'.ne_nil h.underscore h'.underscore (String.toList_injective hjoined)⟩

end Keys

end Gatehouse
