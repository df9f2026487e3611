import Gatehouse.Proofs.Server.Documented
import Gatehouse.Proofs.Server.Glob
import Gatehouse.Proofs.Server.Reply

/-!
# What a client finds

What a client reads out of the replies of a server that does what it is documented to do: the entry of a key, the keys
under a text, each once however often the pages of a scan repeat them, and the values of those keys.
-/

namespace Gatehouse

namespace Client

variable {σ α : Type} {peer : Peer σ} {client : Client} {s s' : σ}

/-! ## Requests -/

theorem replies_reply (client : Client) (l : List Reply) : client.replies (l.map .reply) = .ok l := by
  have hsilence : (l.map Response.reply).any isSilence = false := by
    rw [List.any_map]
    exact List.any_eq_false.mpr fun r _ => Bool.false_ne_true
  have hreplies : (l.map Response.reply).mapM reply? = some l := by
    rw [List.mapM_map]
    refine (mapM_of_forall_pure (g := id) fun r _ => rfl).trans ?_
    rw [List.map_id]
    rfl
  unfold replies
  rw [hsilence, hreplies]
  rfl

theorem request_of_replies {read : Reply → Option α} {batch : List Command} {l : List Reply} {values : List α}
    (h : send peer batch s = (l.map .reply, s')) (hread : l.mapM read = some values) :
    request peer client read batch s = (.ok values, s') := by
  unfold request
  rw [h]
  simp only [replies_reply, hread]

theorem ask_of_reply {read : Reply → Option α} {c : Command} {r : Reply} {a : α} (h : peer c s = (.reply r, s'))
    (hread : read r = some a) : ask peer client read c s = (.ok a, s') := by
  have hsend : send peer [c] s = ([r].map .reply, s') := by
    simp only [send, h, List.map_cons, List.map_nil]
  have hmap : [r].mapM read = some [a] := by
    rw [List.mapM_cons, hread]
    rfl
  unfold ask
  rw [request_of_replies hsend hmap]

/-! ## Pages -/

theorem mem_addPage {k : String} {found page : List String} : k ∈ addPage found page ↔ k ∈ found ∨ k ∈ page := by
  unfold addPage
  induction page generalizing found with
  | nil => simp
  | cons key page ih =>
    rw [List.foldl_cons, ih, List.mem_cons]
    split
    · rename_i hkey
      constructor
      · exact fun h => h.imp_right .inr
      · rintro (h | rfl | h)
        · exact .inl h
        · exact .inl hkey
        · exact .inr h
    · rw [List.mem_append, List.mem_singleton, or_assoc]

theorem nodup_addPage {found page : List String} (h : found.Nodup) : (addPage found page).Nodup := by
  unfold addPage
  induction page generalizing found with
  | nil => exact h
  | cons key page ih =>
    rw [List.foldl_cons]
    refine ih ?_
    split
    · exact h
    · rename_i hkey
      refine List.nodup_append.mpr ⟨h, List.pairwise_singleton _ _, ?_⟩
      intro a ha b hb heq
      rw [List.mem_singleton.mp hb] at heq
      exact hkey (heq ▸ ha)

theorem mem_addPages {k : String} {found : List String} {pages : List (List String)} :
    k ∈ pages.foldl addPage found ↔ k ∈ found ∨ k ∈ pages.flatten := by
  induction pages generalizing found with
  | nil => simp
  | cons page pages ih => rw [List.foldl_cons, ih, mem_addPage, List.flatten_cons, List.mem_append, or_assoc]

theorem nodup_addPages {found : List String} {pages : List (List String)} (h : found.Nodup) :
    (pages.foldl addPage found).Nodup := by
  induction pages generalizing found with
  | nil => exact h
  | cons page pages ih => exact ih (nodup_addPage h)

/-- The client collects the keys of the pages that the server shows. -/
theorem walk_of_pages {S : Server σ} {now cursor fuel : Nat} {stem : String} {found : List String}
    {texts : List (List String)}
    (h : S.Walk now (Glob.startingWith (Bytes.ofText stem)) client.pageSize cursor s
      (texts.map fun page => page.map Bytes.ofText) s')
    (hfuel : texts.length ≤ fuel) :
    walk (S.answer now) client stem fuel cursor found s = (some (.ok (texts.foldl addPage found)), s') := by
  have hask {cursor next : Nat} {s s' : σ} {page : List String} (hword : next < Reply.wordLimit)
      (hpage : S.answer now (client.scanCommand stem cursor) s = (Server.scanReply next (page.map Bytes.ofText), s')) :
      ask (S.answer now) client Reply.page? (client.scanCommand stem cursor) s = (.ok (next, page), s') := by
    refine ask_of_reply hpage ?_
    rw [List.map_map]
    exact Reply.page?_eq hword page
  generalize hpages : (texts.map fun page => page.map Bytes.ofText) = pages at h
  induction h generalizing texts found fuel with
  | last hanswer =>
    cases texts with
    | nil => cases hpages
    | cons page rest =>
      cases fuel with
      | zero => exact absurd hfuel (Nat.not_succ_le_zero _)
      | succ fuel =>
        rw [List.map_cons, List.cons.injEq] at hpages
        obtain ⟨rfl, hrest⟩ := hpages
        obtain rfl := List.map_eq_nil_iff.mp hrest
        simp only [walk, hask (by decide) hanswer, if_true]
        rfl
  | more hnext hword hanswer rest ih =>
    cases texts with
    | nil => cases hpages
    | cons page rest =>
      cases fuel with
      | zero => exact absurd hfuel (Nat.not_succ_le_zero _)
      | succ fuel =>
        rw [List.map_cons, List.cons.injEq] at hpages
        obtain ⟨rfl, hrest⟩ := hpages
        simp only [walk, hask hword hanswer, if_neg hnext]
        exact ih (Nat.le_of_succ_le_succ hfuel) hrest

/-! ## Batches -/

/-- Cutting a list into batches loses nothing. -/
theorem flatten_batches (size : Nat) (l : List α) : (batches size l).flatten = l := by
  have hfrom (current : List α) : (batchesFrom size current l).flatten = current.reverse ++ l := by
    induction l generalizing current with
    | nil => cases current <;> simp [batchesFrom]
    | cons a l ih =>
      rw [batchesFrom]
      split
      · rw [ih, List.reverse_cons, List.append_assoc]
        rfl
      · rw [List.flatten_cons, ih, List.reverse_cons, List.append_assoc]
        rfl
  exact hfrom []

/-! ## A documented server -/

/-- A list of values of a function is the list of their origins, under the function. -/
theorem exists_map_eq {β : Type} {f : α → β} {l : List β} (h : ∀ b ∈ l, ∃ a, f a = b) :
    ∃ l' : List α, l'.map f = l := by
  induction l with
  | nil => exact ⟨[], rfl⟩
  | cons b l ih =>
    obtain ⟨a, rfl⟩ := h b List.mem_cons_self
    obtain ⟨l', rfl⟩ := ih fun b hb => h b (List.mem_cons_of_mem _ hb)
    exact ⟨a :: l', rfl⟩

variable {S : Server σ} {now : Nat}

/-- A command about keys is replied by the database. -/
theorem ask_command (client : Client) (hS : S.Documented) (hs : S.Sound s) (now : Nat) {c : Command}
    (hc : c.Proper now) {read : Reply → Option α} {a : α} (hread : read (c.reply now (S.database now s)) = some a) :
    ∃ s', ask (S.answer now) client read c s = (.ok a, s') ∧ S.Sound s' ∧
      S.database now s' = c.effect now (S.database now s) := by
  obtain ⟨s', hanswer, hsound, hdatabase⟩ := hS.command hs hc
  exact ⟨s', ask_of_reply hanswer hread, hsound, hdatabase⟩

theorem ask_anything (client : Client) (hS : S.Documented) (hs : S.Sound s) (now : Nat) {c : Command}
    (hc : c.Proper now) :
    ∃ s', ask (S.answer now) client anything c s = (.ok (), s') ∧ S.Sound s' ∧
      S.database now s' = c.effect now (S.database now s) :=
  ask_command client hS hs now hc rfl

variable {db : Database} {key : String}

theorem truth?_reply_holds :
    Reply.truth? ((Command.holds key).reply now db) = some (db (Bytes.ofText key)).isSome := by
  simp only [Command.reply, Reply.truth?]
  cases (db (Bytes.ofText key)).isSome <;> rfl

theorem value?_reply_get :
    Reply.value? ((Command.get key).reply now db) = some ((db (Bytes.ofText key)).map KeyspaceEntry.value) := by
  simp only [Command.reply]
  cases db (Bytes.ofText key) <;> rfl

theorem unsigned?_reply_del :
    Reply.unsigned? Reply.wordLimit ((Command.del key).reply now db) =
      some (if (db (Bytes.ofText key)).isSome then 1 else 0) := by
  simp only [Command.reply]
  cases (db (Bytes.ofText key)).isSome <;> rfl

/-- What the server says of the lifetime of a key is understood, as long as its deadline is still to come. -/
theorem lifetime_reply_pttl
    (h : ∀ e, db (Bytes.ofText key) = some e → ∀ millis ∈ e.deadline, now < millis ∧ millis < Command.deadlineLimit) :
    ∃ n, Reply.word? ((Command.pttl key).reply now db) = some n ∧
      lifetime n = match db (Bytes.ofText key) with
        | some e => .ok (e.deadline.map fun millis => Span.ofMillis (millis - now))
        | none => .error .keyNotFound := by
  simp only [Command.reply]
  cases hentry : db (Bytes.ofText key) with
  | none => exact ⟨-2, rfl, rfl⟩
  | some e =>
    obtain ⟨value, deadline⟩ := e
    cases deadline with
    | none => exact ⟨-1, rfl, rfl⟩
    | some millis =>
      obtain ⟨hlive, hlimit⟩ := h _ hentry millis rfl
      unfold Command.deadlineLimit at hlimit
      have hsub : (millis : Int) - now = ((millis - now : Nat) : Int) := (Int.ofNat_sub (Nat.le_of_lt hlive)).symm
      have hword : Reply.isWord ((millis : Int) - now) = true := by
        unfold Reply.isWord
        rw [Bool.and_eq_true, decide_eq_true_eq, decide_eq_true_eq]
        omega
      refine ⟨(millis : Int) - now, if_pos hword, ?_⟩
      unfold lifetime
      rw [if_neg (by omega), if_neg (by omega), hsub, Int.toNat_natCast]
      rfl

theorem send_gets (hS : S.Documented) (now : Nat) (hs : S.Sound s) (keys : List String) :
    ∃ s', send (S.answer now) (keys.map Command.get) s =
        ((keys.map fun k => (Command.get k).reply now (S.database now s)).map .reply, s') ∧
      S.Sound s' ∧ S.database now s' = S.database now s := by
  induction keys generalizing s with
  | nil => exact ⟨s, rfl, hs, rfl⟩
  | cons key keys ih =>
    obtain ⟨s₁, hanswer, hsound₁, hdatabase₁⟩ := hS.command (c := .get key) hs trivial
    obtain ⟨s', hsend, hsound', hdatabase'⟩ := ih hsound₁
    rw [show S.database now s₁ = S.database now s from hdatabase₁] at hsend hdatabase'
    refine ⟨s', ?_, hsound', hdatabase'⟩
    simp only [List.map_cons, send, hanswer, hsend]

/-- The values of the keys that have an entry, with their keys. -/
def entriesOf (db : Database) (keys : List String) : List (String × Bytes) :=
  keys.filterMap fun k => (db (Bytes.ofText k)).map fun e => (k, e.value)

theorem keys_entriesOf {keys : List String} (h : ∀ k ∈ keys, (db (Bytes.ofText k)).isSome = true) :
    (entriesOf db keys).map Prod.fst = keys := by
  unfold entriesOf
  induction keys with
  | nil => rfl
  | cons key keys ih =>
    obtain ⟨e, he⟩ := Option.isSome_iff_exists.mp (h key List.mem_cons_self)
    simp only [List.filterMap_cons, he, Option.map_some, List.map_cons]
    rw [ih fun k hk => h k (List.mem_cons_of_mem _ hk)]

theorem present_eq (db : Database) (keys : List String) :
    present keys (keys.map fun k => (db (Bytes.ofText k)).map KeyspaceEntry.value) = entriesOf db keys := by
  unfold present entriesOf
  induction keys with
  | nil => rfl
  | cons key keys ih =>
    rw [List.map_cons, List.zip_cons_cons, List.filterMap_cons, List.filterMap_cons, ih]
    cases db (Bytes.ofText key) <;> rfl

/-- The values of all batches are fetched. -/
theorem fetchAll_eq (client : Client) (hS : S.Documented) (hs : S.Sound s) (batches : List (List String)) :
    ∃ s', fetchAll (S.answer now) client batches s = (.ok (entriesOf (S.database now s) batches.flatten), s') ∧
      S.Sound s' ∧ S.database now s' = S.database now s := by
  induction batches generalizing s with
  | nil => exact ⟨s, rfl, hs, rfl⟩
  | cons batch rest ih =>
    obtain ⟨s₁, hsend, hsound₁, hdatabase₁⟩ := send_gets hS now hs batch
    have hread : (batch.map fun k => (Command.get k).reply now (S.database now s)).mapM Reply.value? =
        some (batch.map fun k => (S.database now s (Bytes.ofText k)).map KeyspaceEntry.value) := by
      rw [List.mapM_map]
      exact mapM_of_forall_pure fun k _ => value?_reply_get
    obtain ⟨s', hfetch, hsound', hdatabase'⟩ := ih hsound₁
    rw [hdatabase₁] at hfetch hdatabase'
    refine ⟨s', ?_, hsound', hdatabase'⟩
    simp only [fetchAll, request_of_replies hsend hread, hfetch, present_eq, Except.map]
    unfold entriesOf
    rw [List.flatten_cons, List.filterMap_append]

/-- A walk finds every key under its text once. -/
theorem walk_eq (hS : S.Documented) (hs : S.Sound s) (hpage : 0 < client.pageSize)
    (htexts : ∀ k, (S.database now s k).isSome = true → ∃ t, Bytes.ofText t = k) (stem : String) :
    ∃ keys s', walk (S.answer now) client stem (S.pageBound s) 0 [] s = (some (.ok keys), s') ∧ S.Sound s' ∧
      S.database now s' = S.database now s ∧ keys.Nodup ∧
      ∀ k, k ∈ keys ↔ startsWith stem k = true ∧ (S.database now s (Bytes.ofText k)).isSome = true := by
  obtain ⟨pages, s', hwalk, hlength, hsound, hdatabase, hmem⟩ :=
    hS.scan hs (Glob.startingWith (Bytes.ofText stem)) hpage
  have hpages : ∀ page ∈ pages, ∃ texts : List String, texts.map Bytes.ofText = page := fun page hpage =>
    exists_map_eq fun k hk => htexts k ((hmem k).mp (List.mem_flatten.mpr ⟨page, hpage, hk⟩)).2
  obtain ⟨texts, rfl⟩ := exists_map_eq hpages
  rw [List.length_map] at hlength
  refine ⟨texts.foldl addPage [], s', walk_of_pages hwalk hlength, hsound, hdatabase, nodup_addPages .nil, ?_⟩
  intro k
  have hkey : k ∈ texts.flatten ↔ Bytes.ofText k ∈ (texts.map fun page => page.map Bytes.ofText).flatten := by
    rw [← List.map_flatten, List.mem_map]
    exact ⟨fun h => ⟨k, h, rfl⟩, fun ⟨k', h, heq⟩ => Bytes.ofText_inj.mp heq ▸ h⟩
  rw [mem_addPages, hkey, hmem, Glob.admits_startingWith, Bytes.isPrefixOf_ofText]
  simp

end Client

end Gatehouse
