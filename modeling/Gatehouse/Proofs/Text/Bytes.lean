import Mathlib.Data.List.Induction
import Gatehouse.Proofs.Keys
import Gatehouse.Text.Bytes

/-!
# Texts and numbers as octets

A text comes back from its octets, and so does a number from as many octets as it needs; octets are the octets of their
number. One text starts with another exactly when its octets start with the octets of the other.
-/

namespace Gatehouse

/-- Items that can all be read are read one by one. -/
theorem mapM_of_forall_pure {m : Type → Type} [Monad m] [LawfulMonad m] {α β : Type} {f : α → m β} {g : α → β}
    {l : List α} (h : ∀ a ∈ l, f a = pure (g a)) : l.mapM f = pure (l.map g) := by
  induction l with
  | nil => rfl
  | cons a l ih =>
    rw [List.mapM_cons, h a List.mem_cons_self, ih fun b hb => h b (List.mem_cons_of_mem _ hb), pure_bind, pure_bind,
      List.map_cons]

/-- An item that cannot be read fails them all, with the failure of some item. -/
theorem mapM_error {ε α β : Type} {f : α → Except ε β} {P : ε → Prop} (hP : ∀ a e, f a = .error e → P e) {l : List α}
    (h : ∃ a ∈ l, ∃ e, f a = .error e) : ∃ e, P e ∧ l.mapM f = .error e := by
  induction l with
  | nil =>
    obtain ⟨a, ha, -⟩ := h
    cases ha
  | cons a l ih =>
    rw [List.mapM_cons]
    cases hf : f a with
    | error e => exact ⟨e, hP a e hf, rfl⟩
    | ok b =>
      obtain ⟨a', ha', e, he⟩ := h
      rcases List.mem_cons.mp ha' with rfl | hmem
      · rw [hf] at he
        cases he
      · obtain ⟨e', hPe', hl⟩ := ih ⟨a', hmem, e, he⟩
        rw [hl]
        exact ⟨e', hPe', rfl⟩

/-- A sequence that succeeds has succeeded in its first part. -/
theorem exists_of_bind_ok {ε α β : Type} {x : Except ε α} {f : α → Except ε β} {b : β} (h : x >>= f = .ok b) :
    ∃ a, x = .ok a ∧ f a = .ok b := by
  cases x with
  | error e => cases h
  | ok a => exact ⟨a, rfl, h⟩

/-- What is read item by item was read from some item each. -/
theorem mem_of_mapM_ok {ε α β : Type} {f : α → Except ε β} {l : List α} {bs : List β} (h : l.mapM f = .ok bs) {b : β}
    (hb : b ∈ bs) : ∃ a ∈ l, f a = .ok b := by
  induction l generalizing bs with
  | nil =>
    cases h
    exact absurd hb List.not_mem_nil
  | cons a l ih =>
    rw [List.mapM_cons] at h
    obtain ⟨first, hfirst, h⟩ := exists_of_bind_ok h
    obtain ⟨rest, hrest, h⟩ := exists_of_bind_ok h
    cases h
    rcases List.mem_cons.mp hb with rfl | hb
    · exact ⟨a, List.mem_cons_self, hfirst⟩
    · obtain ⟨a', ha', heq⟩ := ih hrest hb
      exact ⟨a', List.mem_cons_of_mem _ ha', heq⟩

theorem mem_of_mapM_some {α β : Type} {f : α → Option β} {l : List α} {bs : List β} (h : l.mapM f = some bs) {b : β}
    (hb : b ∈ bs) : ∃ a ∈ l, f a = some b := by
  induction l generalizing bs with
  | nil =>
    cases h
    exact absurd hb List.not_mem_nil
  | cons a l ih =>
    rw [List.mapM_cons] at h
    obtain ⟨first, hfirst, h⟩ := Option.bind_eq_some_iff.mp h
    obtain ⟨rest, hrest, h⟩ := Option.bind_eq_some_iff.mp h
    cases h
    rcases List.mem_cons.mp hb with rfl | hb
    · exact ⟨a, List.mem_cons_self, hfirst⟩
    · obtain ⟨a', ha', heq⟩ := ih hrest hb
      exact ⟨a', List.mem_cons_of_mem _ ha', heq⟩

namespace Bytes

/-! ## Texts -/

theorem toByteArray_ofText (s : String) : (⟨(ofText s).toArray⟩ : ByteArray) = s.toByteArray := rfl

theorem text?_ofText (s : String) : text? (ofText s) = some s := by
  unfold text? String.fromUTF8?
  rw [toByteArray_ofText, dif_pos s.isValidUTF8]
  rfl

theorem ofText_of_text? {b : Bytes} {s : String} (h : text? b = some s) : ofText s = b := by
  unfold text? String.fromUTF8? at h
  split at h
  · cases h
    rfl
  · cases h

theorem ofText_inj {a b : String} : ofText a = ofText b ↔ a = b := by
  refine ⟨fun h => ?_, fun h => h ▸ rfl⟩
  have htext := congrArg text? h
  rw [text?_ofText, text?_ofText] at htext
  exact Option.some.inj htext

theorem ofText_append (a b : String) : ofText (a ++ b) = ofText a ++ ofText b := by
  unfold ofText
  simp

/-- The octets of a text are those of its characters. -/
theorem ofText_eq_flatMap (s : String) : ofText s = s.toList.flatMap String.utf8EncodeChar := by
  have h := String.utf8Encode_toList (b := s)
  unfold List.utf8Encode at h
  change s.toByteArray.data.toList = _
  rw [← h]
  simp

/-- One text starts with another exactly when its octets do. -/
theorem isPrefixOf_ofText (stem key : String) : (ofText stem).isPrefixOf (ofText key) = startsWith stem key := by
  rw [Bool.eq_iff_iff, startsWith_iff, List.isPrefixOf_iff_prefix]
  constructor
  · rintro ⟨rest, hrest⟩
    refine List.isPrefix_of_utf8Encode_append_eq_utf8Encode ⟨rest.toArray⟩ ?_
    rw [String.utf8Encode_toList, String.utf8Encode_toList, ← toByteArray_ofText, ← toByteArray_ofText, ← hrest]
    exact ByteArray.ext (by simp)
  · rintro ⟨rest, hrest⟩
    have hkey : key = stem ++ String.ofList rest := String.toList_inj.mp (by simp [← hrest])
    rw [hkey, ofText_append]
    exact List.prefix_append _ _

/-! ## Numbers -/

theorem toNat_append_singleton (b : Bytes) (c : UInt8) : toNat (b ++ [c]) = 256 * toNat b + c.toNat := by
  unfold toNat
  rw [List.foldl_append]
  rfl

@[simp]
theorem length_ofNat (width n : Nat) : (ofNat width n).length = width := by
  induction width generalizing n with
  | zero => rfl
  | succ width ih => rw [ofNat, List.length_append, ih, List.length_singleton]

/-- A number comes back from its octets if they are enough. -/
theorem toNat_ofNat {width n : Nat} (h : n < Nat.pow 256 width) : toNat (ofNat width n) = n := by
  induction width generalizing n with
  | zero => exact (Nat.lt_one_iff.mp h).symm
  | succ width ih =>
    have hdiv : n / 256 < Nat.pow 256 width := Nat.div_lt_of_lt_mul (Nat.mul_comm _ 256 ▸ h)
    rw [ofNat, toNat_append_singleton, ih hdiv, UInt8.toNat_ofNat']
    omega

theorem toNat_lt (b : Bytes) : toNat b < Nat.pow 256 b.length := by
  induction b using List.reverseRecOn with
  | nil => exact Nat.one_pos
  | append_singleton rest c ih =>
    have hc : c.toNat < 256 := c.toNat_lt
    have hpow : Nat.pow 256 (rest ++ [c]).length = Nat.pow 256 rest.length * 256 := by
      rw [List.length_append]
      rfl
    rw [toNat_append_singleton, hpow]
    omega

/-- Octets come back from the number that they are. -/
theorem ofNat_toNat (b : Bytes) : ofNat b.length (toNat b) = b := by
  induction b using List.reverseRecOn with
  | nil => rfl
  | append_singleton rest c ih =>
    have hc : c.toNat < 256 := c.toNat_lt
    have hhigh : (256 * toNat rest + c.toNat) / 256 = toNat rest := by omega
    have hlow : UInt8.ofNat (256 * toNat rest + c.toNat) = c := by
      rw [← UInt8.toNat_inj, UInt8.toNat_ofNat']
      omega
    rw [List.length_append, List.length_singleton, ofNat, toNat_append_singleton, hhigh, hlow, ih]

end Bytes

end Gatehouse
