import Mathlib.Data.List.Forall2
import Gatehouse.Proofs.Server.Client

/-!
# Scans over any pages

A server may cut the keys under a text into pages as it likes: pages of any size, empty ones, and keys that come again.
Whatever the pages are, a client asks for one after another, each under the cursor that came with the one before, until
that is zero. It finds every key once, in the order in which they came first, and fetches the values of the keys in
batches as if it did so one by one. The first request that fails makes the whole call fail (`scan_reassembles`).
-/

namespace Gatehouse

/-! ## Responses that are given beforehand -/

/-- A far end that gives the responses of a list, whatever it is asked, and is silent after them. It keeps the commands,
the latest last. -/
structure Script where
  coming : List Response
  asked : List Command

namespace Script

/-- Gives the next response. -/
def answer : Peer Script
  | c, ⟨[], asked⟩ => (.silence, ⟨[], asked ++ [c]⟩)
  | c, ⟨r :: coming, asked⟩ => (r, ⟨coming, asked ++ [c]⟩)

variable {rest : List Response} {asked : List Command}

theorem send_eq {batch : List Command} {l : List Response} (h : l.length = batch.length) :
    Client.send answer batch ⟨l ++ rest, asked⟩ = (l, ⟨rest, asked ++ batch⟩) := by
  induction batch generalizing l asked with
  | nil =>
    obtain rfl := List.length_eq_zero_iff.mp h
    rw [List.append_nil]
    rfl
  | cons c batch ih =>
    cases l with
    | nil => cases h
    | cons r l =>
      simp only [Client.send, answer, List.cons_append, ih (Nat.succ.inj h), List.append_assoc, List.nil_append]

end Script

namespace Client

variable {σ α : Type} {peer : Peer σ} {client : Client} {s s' : σ} {read : Reply → Option α} {l : List Response}

/-- Responses are replies from which values are read, one by one. -/
def Reads (read : Reply → Option α) : List Response → List α → Prop :=
  List.Forall₂ fun r a => ∃ reply, r = .reply reply ∧ read reply = some a

/-- How a request fails when this comes back: the time allowed is over if a command gets no answer at all, and else the
server has failed if it refuses a command or its reply is not understood. -/
def Fails (client : Client) (read : Reply → Option α) (l : List Response) (e : CacheError) : Prop :=
  (.silence ∈ l ∧ e = .timeout client.timeout) ∨
    (.silence ∉ l ∧ e = .server ∧ ∃ r ∈ l, r = .refusal ∨ ∃ reply, r = .reply reply ∧ read reply = none)

namespace Reads

variable {as bs : List α}

theorem length_eq (h : Reads read l as) : l.length = as.length := List.Forall₂.length_eq h

/-- Responses to two requests come one after the other. -/
theorem exists_of_append (h : Reads read l (as ++ bs)) :
    ∃ l₁ l₂, l = l₁ ++ l₂ ∧ Reads read l₁ as ∧ Reads read l₂ bs :=
  ⟨_, _, (List.take_append_drop as.length l).symm, List.forall₂_take_append _ _ _ h, List.forall₂_drop_append _ _ _ h⟩

theorem exists_of_mem (h : Reads read l as) {r : Response} (hr : r ∈ l) :
    ∃ reply a, r = .reply reply ∧ read reply = some a := by
  induction h with
  | nil => cases hr
  | cons hhead _ ih =>
    rcases List.mem_cons.mp hr with rfl | hr
    · obtain ⟨reply, hreply⟩ := hhead
      exact ⟨reply, _, hreply⟩
    · exact ih hr

theorem iff_mapM : Reads read l as ↔ ∃ replies, l.mapM reply? = some replies ∧ replies.mapM read = some as := by
  constructor
  · intro h
    induction h with
    | nil => exact ⟨[], rfl, rfl⟩
    | cons hhead _ ih =>
      obtain ⟨reply, rfl, hread⟩ := hhead
      obtain ⟨replies, hreplies, hmap⟩ := ih
      refine ⟨reply :: replies, ?_, ?_⟩
      · rw [List.mapM_cons, hreplies]
        rfl
      · rw [List.mapM_cons, hread, hmap]
        rfl
  · rintro ⟨replies, hreplies, hmap⟩
    induction l generalizing replies as with
    | nil =>
      cases hreplies
      cases hmap
      exact .nil
    | cons r l ih =>
      rw [List.mapM_cons] at hreplies
      obtain ⟨reply, hreply, hreplies⟩ := Option.bind_eq_some_iff.mp hreplies
      obtain ⟨rest, hrest, heq⟩ := Option.bind_eq_some_iff.mp hreplies
      cases heq
      rw [List.mapM_cons] at hmap
      obtain ⟨a, ha, hmap⟩ := Option.bind_eq_some_iff.mp hmap
      obtain ⟨as, has, heq⟩ := Option.bind_eq_some_iff.mp hmap
      cases heq
      refine .cons ⟨reply, ?_, ha⟩ (ih rest hrest has)
      cases r with
      | reply reply' => exact congrArg _ (Option.some.inj hreply)
      | _ => cases hreply

end Reads

/-- Whatever comes back for a request, either all of it is read or the request fails. -/
theorem reads_or_fails (client : Client) (read : Reply → Option α) (l : List Response) :
    (∃ as, Reads read l as) ∨ ∃ e, client.Fails read l e := by
  by_cases hsilence : .silence ∈ l
  · exact .inr ⟨_, .inl ⟨hsilence, rfl⟩⟩
  · by_cases hall : ∀ r ∈ l, ∃ reply a, r = .reply reply ∧ read reply = some a
    · refine .inl ?_
      clear hsilence
      induction l with
      | nil => exact ⟨[], .nil⟩
      | cons r l ih =>
        obtain ⟨reply, a, hreply⟩ := hall r List.mem_cons_self
        obtain ⟨as, has⟩ := ih fun r' hr' => hall r' (List.mem_cons_of_mem _ hr')
        exact ⟨a :: as, .cons ⟨reply, hreply⟩ has⟩
    · obtain ⟨r, hr⟩ := not_forall.mp hall
      obtain ⟨hmem, hr⟩ := Classical.not_imp.mp hr
      refine .inr ⟨.server, .inr ⟨hsilence, rfl, r, hmem, ?_⟩⟩
      cases r with
      | silence => exact absurd hmem hsilence
      | refusal => exact .inl rfl
      | reply reply =>
        refine .inr ⟨reply, rfl, Option.eq_none_iff_forall_ne_some.mpr fun a ha => hr ⟨reply, a, rfl, ha⟩⟩

/-! ## Requests -/

theorem any_isSilence : l.any isSilence = true ↔ .silence ∈ l := by
  rw [List.any_eq_true]
  constructor
  · rintro ⟨r, hr, hsilence⟩
    cases r with
    | silence => exact hr
    | _ => cases hsilence
  · exact fun h => ⟨_, h, rfl⟩

/-- A request whose replies are all understood ends with their values. -/
theorem request_of_reads {batch : List Command} {as : List α} (h : send peer batch s = (l, s'))
    (hreads : Reads read l as) : request peer client read batch s = (.ok as, s') := by
  have hsilence : ¬l.any isSilence = true := by
    rw [any_isSilence]
    intro hmem
    obtain ⟨reply, a, heq, -⟩ := hreads.exists_of_mem hmem
    cases heq
  obtain ⟨replies, hreplies, hmap⟩ := Reads.iff_mapM.mp hreads
  unfold request Client.replies
  simp only [h, if_neg hsilence, hreplies, hmap]

/-- Any other request fails. -/
theorem request_of_fails {batch : List Command} {e : CacheError} (h : send peer batch s = (l, s'))
    (hfails : client.Fails read l e) : request peer client read batch s = (.error e, s') := by
  unfold request Client.replies
  rcases hfails with ⟨hsilence, rfl⟩ | ⟨hsilence, rfl, r, hr, hfails⟩
  · simp only [h, if_pos (any_isSilence.mpr hsilence)]
  · simp only [h, if_neg fun hany => hsilence (any_isSilence.mp hany)]
    cases hreplies : l.mapM reply? with
    | none => rfl
    | some replies =>
      cases hmap : replies.mapM read with
      | none => simp only [hmap]
      | some as =>
        obtain ⟨reply, a, rfl, hread⟩ := (Reads.iff_mapM.mpr ⟨replies, hreplies, hmap⟩).exists_of_mem hr
        rcases hfails with heq | ⟨reply', heq, hnone⟩
        · cases heq
        · cases heq
          rw [hread] at hnone
          cases hnone

theorem ask_of_reads {c : Command} {r : Response} {a : α} (h : peer c s = (r, s')) (hreads : Reads read [r] [a]) :
    ask peer client read c s = (.ok a, s') := by
  have hsend : send peer [c] s = ([r], s') := by simp only [send, h]
  unfold ask
  rw [request_of_reads hsend hreads]

theorem ask_of_fails {c : Command} {r : Response} {e : CacheError} (h : peer c s = (r, s'))
    (hfails : client.Fails read [r] e) : ask peer client read c s = (.error e, s') := by
  have hsend : send peer [c] s = ([r], s') := by simp only [send, h]
  unfold ask
  rw [request_of_fails hsend hfails]

/-! ## Pages -/

/-- Adding a page to the keys that came before it, each kept where it came first. -/
theorem addPage_eraseDups (found page : List String) : addPage found.eraseDups page = (found ++ page).eraseDups := by
  unfold addPage
  induction page generalizing found with
  | nil => rw [List.append_nil]; rfl
  | cons key page ih =>
    rw [List.append_cons, ← ih, List.foldl_cons, List.eraseDups_append]
    congr 1
    by_cases hkey : key ∈ found
    · rw [if_pos (List.mem_eraseDups.mpr hkey)]
      simp [List.removeAll, hkey]
    · rw [if_neg fun h => hkey (List.mem_eraseDups.mp h)]
      simp [List.removeAll, hkey, List.eraseDups_cons]

theorem foldl_addPage (pages : List (List String)) : pages.foldl addPage [] = pages.flatten.eraseDups := by
  have hfrom (found : List String) : pages.foldl addPage found.eraseDups = (found ++ pages.flatten).eraseDups := by
    induction pages generalizing found with
    | nil => rw [List.flatten_nil, List.append_nil]; rfl
    | cons page pages ih =>
      rw [List.foldl_cons, addPage_eraseDups, ih, List.flatten_cons, List.append_assoc]
  exact hfrom []

variable {pages : List (Nat × List String)} (client) (stem : String) (rest : List Response) (asked : List Command)

/-- Over pages that are not the last one, a walk goes from each cursor to the one that comes back for it. -/
theorem walk_append (hreads : Reads Reply.page? l pages) (hmore : ∀ page ∈ pages, page.1 ≠ 0) (fuel cursor : Nat)
    (found : List String) :
    ∃ cursors next, cursor :: pages.map Prod.fst = cursors ++ [next] ∧
      walk Script.answer client stem (pages.length + fuel) cursor found ⟨l ++ rest, asked⟩ =
        walk Script.answer client stem fuel next ((pages.map Prod.snd).foldl addPage found)
          ⟨rest, asked ++ cursors.map (client.scanCommand stem)⟩ := by
  induction hreads generalizing cursor found asked with
  | nil => exact ⟨[], cursor, rfl, by rw [List.length_nil, Nat.zero_add]; simp⟩
  | @cons r page l pages hhead _ ih =>
    have hask : ask Script.answer client Reply.page? (client.scanCommand stem cursor) ⟨r :: l ++ rest, asked⟩ =
        (.ok page, ⟨l ++ rest, asked ++ [client.scanCommand stem cursor]⟩) :=
      ask_of_reads rfl (.cons hhead .nil)
    obtain ⟨cursors, next, hcursors, hwalk⟩ := ih (asked ++ [client.scanCommand stem cursor])
      (fun page' hpage' => hmore page' (List.mem_cons_of_mem _ hpage')) page.1 (addPage found page.2)
    refine ⟨cursor :: cursors, next, congrArg (List.cons cursor) hcursors, ?_⟩
    rw [List.length_cons, Nat.add_right_comm, walk, hask]
    simp only [if_neg (hmore page List.mem_cons_self), hwalk, List.append_assoc]
    rfl

/-- The commands with which the pages of a scan are asked for. -/
def scanCommands (client : Client) (stem : String) (pages : List (Nat × List String)) : List Command :=
  (0 :: pages.map Prod.fst).map (client.scanCommand stem)

/-- A walk ends with the page that comes with a zero cursor, and finds every key once. -/
theorem walk_of_reads (hreads : Reads Reply.page? l pages) (hmore : ∀ page ∈ pages, page.1 ≠ 0) {fuel : Nat}
    (hfuel : pages.length < fuel) {r : Response} {last : List String} (hlast : Reads Reply.page? [r] [(0, last)]) :
    walk Script.answer client stem fuel 0 [] ⟨l ++ r :: rest, asked⟩ =
      (some (.ok ((pages.map Prod.snd).flatten ++ last).eraseDups),
        ⟨rest, asked ++ client.scanCommands stem pages⟩) := by
  obtain ⟨fuel, rfl⟩ := Nat.exists_eq_add_of_lt hfuel
  obtain ⟨cursors, next, hcursors, hwalk⟩ :=
    walk_append client stem (r :: rest) asked hreads hmore (fuel + 1) 0 []
  have hask : ask Script.answer client Reply.page? (client.scanCommand stem next)
      ⟨r :: rest, asked ++ cursors.map (client.scanCommand stem)⟩ = (.ok (0, last), _) := ask_of_reads rfl hlast
  rw [Nat.add_assoc, hwalk, walk, hask, foldl_addPage]
  simp only [if_true, addPage_eraseDups, scanCommands, hcursors, List.map_append, List.append_assoc]
  rfl

/-- A walk ends with the first page that cannot be had. -/
theorem walk_of_fails (hreads : Reads Reply.page? l pages) (hmore : ∀ page ∈ pages, page.1 ≠ 0) {fuel : Nat}
    (hfuel : pages.length < fuel) {r : Response} {e : CacheError} (hfails : client.Fails Reply.page? [r] e) :
    walk Script.answer client stem fuel 0 [] ⟨l ++ r :: rest, asked⟩ =
      (some (.error e), ⟨rest, asked ++ client.scanCommands stem pages⟩) := by
  obtain ⟨fuel, rfl⟩ := Nat.exists_eq_add_of_lt hfuel
  obtain ⟨cursors, next, hcursors, hwalk⟩ :=
    walk_append client stem (r :: rest) asked hreads hmore (fuel + 1) 0 []
  have hask : ask Script.answer client Reply.page? (client.scanCommand stem next)
      ⟨r :: rest, asked ++ cursors.map (client.scanCommand stem)⟩ = (.error e, _) := ask_of_fails rfl hfails
  rw [Nat.add_assoc, hwalk, walk, hask]
  simp only [scanCommands, hcursors, List.map_append, List.append_assoc]
  rfl

/-! ## Values -/

theorem present_append {keys keys' : List String} {values values' : List (Option Bytes)}
    (h : keys.length = values.length) :
    present (keys ++ keys') (values ++ values') = present keys values ++ present keys' values' := by
  unfold present
  rw [List.zip_append h, List.filterMap_append]

/-- Fetches the values of keys one by one, and leaves out the keys that have none. -/
def fetchEach (peer : Peer σ) (client : Client) : List String → σ → Except CacheError (List (String × Bytes)) × σ
  | [], s => (.ok [], s)
  | key :: keys, s =>
    match ask peer client Reply.value? (.get key) s with
    | (.error e, s) => (.error e, s)
    | (.ok value, s) =>
      let (found, s) := fetchEach peer client keys s
      (found.map fun l => present [key] [value] ++ l, s)

theorem fetchEach_of_reads {keys : List String} {values : List (Option Bytes)} (hreads : Reads Reply.value? l values)
    (hlength : values.length = keys.length) :
    fetchEach Script.answer client keys ⟨l ++ rest, asked⟩ =
      (.ok (present keys values), ⟨rest, asked ++ keys.map Command.get⟩) := by
  induction hreads generalizing keys asked with
  | nil =>
    obtain rfl := List.length_eq_zero_iff.mp hlength.symm
    rw [List.map_nil, List.append_nil]
    rfl
  | @cons r value l values hhead _ ih =>
    cases keys with
    | nil => cases hlength
    | cons key keys =>
      have hask : ask Script.answer client Reply.value? (.get key) ⟨r :: l ++ rest, asked⟩ =
          (.ok value, ⟨l ++ rest, asked ++ [.get key]⟩) := ask_of_reads rfl (.cons hhead .nil)
      simp only [fetchEach, hask, ih _ (Nat.succ.inj hlength), Except.map, List.append_assoc]
      rw [← present_append rfl]
      rfl

/-- Batches whose values come back are left behind, and what is found in them is put before the rest. -/
theorem fetchAll_append (earlier later : List (List String)) {values : List (Option Bytes)}
    (hreads : Reads Reply.value? l values) (hlength : values.length = earlier.flatten.length) :
    fetchAll Script.answer client (earlier ++ later) ⟨l ++ rest, asked⟩ =
      ((fetchAll Script.answer client later ⟨rest, asked ++ earlier.flatten.map Command.get⟩).1.map
          (present earlier.flatten values ++ ·),
        (fetchAll Script.answer client later ⟨rest, asked ++ earlier.flatten.map Command.get⟩).2) := by
  induction earlier generalizing l values asked with
  | nil =>
    obtain rfl := List.length_eq_zero_iff.mp hlength
    obtain rfl := List.length_eq_zero_iff.mp hreads.length_eq
    simp only [List.nil_append, List.flatten_nil, List.map_nil, List.append_nil]
    refine Prod.ext ?_ rfl
    cases (fetchAll Script.answer client later ⟨rest, asked⟩).1 <;> rfl
  | cons batch earlier ih =>
    rw [List.flatten_cons, List.length_append] at hlength
    rw [← List.take_append_drop batch.length values] at hreads
    obtain ⟨l₁, l₂, rfl, hfirst, hrest⟩ := hreads.exists_of_append
    have htake : (values.take batch.length).length = batch.length := by rw [List.length_take]; omega
    have hdrop : (values.drop batch.length).length = earlier.flatten.length := by rw [List.length_drop]; omega
    have hsend : send Script.answer (batch.map Command.get) ⟨l₁ ++ (l₂ ++ rest), asked⟩ =
        (l₁, ⟨l₂ ++ rest, asked ++ batch.map Command.get⟩) :=
      Script.send_eq (by rw [hfirst.length_eq, htake, List.length_map])
    rw [List.cons_append, fetchAll, List.append_assoc, request_of_reads hsend hfirst]
    simp only [ih _ hrest hdrop, List.flatten_cons, List.map_append, List.append_assoc]
    refine Prod.ext ?_ rfl
    have hpresent : present (batch ++ earlier.flatten) values =
        present batch (values.take batch.length) ++ present earlier.flatten (values.drop batch.length) := by
      rw [← present_append htake.symm, List.take_append_drop]
    rw [hpresent]
    cases (fetchAll Script.answer client later _).1 with
    | error e => rfl
    | ok found => simp only [Except.map, List.append_assoc]

/-- All values are fetched, however the keys are cut into batches. -/
theorem fetchAll_of_reads {keys : List String} {values : List (Option Bytes)} (hreads : Reads Reply.value? l values)
    (hlength : values.length = keys.length) :
    fetchAll Script.answer client (batches batchSize keys) ⟨l ++ rest, asked⟩ =
      (.ok (present keys values), ⟨rest, asked ++ keys.map Command.get⟩) := by
  have hfetch := fetchAll_append client rest asked (batches batchSize keys) [] hreads
    (hlength.trans (congrArg List.length (flatten_batches batchSize keys).symm))
  rw [List.append_nil, flatten_batches] at hfetch
  rw [hfetch]
  simp only [fetchAll, Except.map, List.append_nil]

/-- The first batch that cannot be fetched makes the whole fetch fail. -/
theorem fetchAll_of_fails {earlier later : List (List String)} {batch : List String} {values : List (Option Bytes)}
    (hreads : Reads Reply.value? l values) (hlength : values.length = earlier.flatten.length)
    {failed : List Response} (hfailed : failed.length = batch.length) {e : CacheError}
    (hfails : client.Fails Reply.value? failed e) :
    fetchAll Script.answer client (earlier ++ batch :: later) ⟨l ++ (failed ++ rest), asked⟩ =
      (.error e, ⟨rest, asked ++ (earlier.flatten ++ batch).map Command.get⟩) := by
  have hsend : send Script.answer (batch.map Command.get)
      ⟨failed ++ rest, asked ++ earlier.flatten.map Command.get⟩ = (failed, _) :=
    Script.send_eq (by rw [hfailed, List.length_map])
  rw [fetchAll_append client (failed ++ rest) asked earlier (batch :: later) hreads hlength, fetchAll,
    request_of_fails hsend hfails]
  simp only [Except.map, List.map_append, List.append_assoc]

/-! ## Calls -/

/-- A scan reassembles whatever pages it is given. Let a server answer the first requests of a scan with pages of any
sizes, whose cursors are not zero. The client asks for the first page under the cursor zero, and for each further one
under the cursor that came with the page before.

If a page with the cursor zero comes next, the client asks for no more. It has found every key of the pages once, in the
order in which they came first. When it is to fetch the values too, it then asks for the value of each key, in that
order, and ends with the keys whose reply was a value, each with its own, just as if it had fetched them one by one. If
the request for one batch of values fails, the call fails with that error, and nothing more is asked for.

If the next page cannot be had, both calls fail with the error of that request, and nothing more is asked for. -/
theorem scan_reassembles (client : Client) (stem : String) {scanned : List Response}
    (hreads : Reads Reply.page? scanned pages) (hmore : ∀ page ∈ pages, page.1 ≠ 0) {fuel : Nat}
    (hfuel : pages.length < fuel) :
    let scans := client.scanCommands stem pages
    (∀ r last, Reads Reply.page? [r] [(0, last)] →
      let keys := ((pages.map Prod.snd).flatten ++ last).eraseDups
      (∀ rest, client.perform Script.answer fuel (.keys stem) ⟨scanned ++ r :: rest, []⟩ =
        (.returned (.ok keys), ⟨rest, scans⟩)) ∧
      (∀ fetched values rest, Reads Reply.value? fetched values → values.length = keys.length →
        client.perform Script.answer fuel (.entries stem) ⟨scanned ++ r :: (fetched ++ rest), []⟩ =
            (.returned (.ok (present keys values)), ⟨rest, scans ++ keys.map .get⟩) ∧
          fetchEach Script.answer client keys ⟨fetched ++ rest, scans⟩ =
            (.ok (present keys values), ⟨rest, scans ++ keys.map .get⟩)) ∧
      ∀ earlier batch later fetched values failed e rest, batches batchSize keys = earlier ++ batch :: later →
        Reads Reply.value? fetched values → values.length = earlier.flatten.length →
        failed.length = batch.length → client.Fails Reply.value? failed e →
        client.perform Script.answer fuel (.entries stem) ⟨scanned ++ r :: (fetched ++ (failed ++ rest)), []⟩ =
          (.returned (.error e), ⟨rest, scans ++ (earlier.flatten ++ batch).map .get⟩)) ∧
    ∀ r e rest, client.Fails Reply.page? [r] e →
      client.perform Script.answer fuel (.keys stem) ⟨scanned ++ r :: rest, []⟩ =
          (.returned (.error e), ⟨rest, scans⟩) ∧
        client.perform Script.answer fuel (.entries stem) ⟨scanned ++ r :: rest, []⟩ =
          (.returned (.error e), ⟨rest, scans⟩) := by
  intro scans
  refine ⟨fun r last hlast => ?_, fun r e rest hfails => ?_⟩
  · intro keys
    have hwalk (rest : List Response) := walk_of_reads client stem rest [] hreads hmore hfuel hlast
    have hentries (rest : List Response) :
        client.perform Script.answer fuel (.entries stem) ⟨scanned ++ r :: rest, []⟩ =
          settled (fetchAll Script.answer client (batches batchSize keys) ⟨rest, scans⟩) := by
      simp only [perform, hwalk]
      rfl
    refine ⟨fun rest => ?_, fun fetched values rest hvalues hlength => ⟨?_, ?_⟩, ?_⟩
    · simp only [perform, hwalk]
      rfl
    · rw [hentries, fetchAll_of_reads client rest scans hvalues hlength]
      rfl
    · exact fetchEach_of_reads client rest scans hvalues hlength
    · intro earlier batch later fetched values failed e rest hbatches hvalues hlength hfailed hfails
      rw [hentries, hbatches, fetchAll_of_fails client rest scans hvalues hlength hfailed hfails]
      rfl
  · have hwalk := walk_of_fails client stem rest [] hreads hmore hfuel hfails
    simp only [perform, hwalk]
    exact ⟨rfl, rfl⟩

/-- The first two pages of a scan. The second one is empty. -/
def firstPages : List Response :=
  [Server.scanReply 7 (["ka", "kb"].map Bytes.ofText), Server.scanReply 9 ([].map Bytes.ofText)]

/-- A third page repeats a key, and one of the keys is gone when the values are fetched. Then the batch is not answered
in full, or the third page is refused. -/
theorem scan_reassembles_three_pages :
    let client : Client := ⟨Span.ofSeconds 1, 10⟩
    let last := Server.scanReply 0 (["kb", "kc"].map Bytes.ofText)
    let scans := [0, 7, 9].map (client.scanCommand "k")
    let gets := ["ka", "kb", "kc"].map Command.get
    client.perform Script.answer 3 (.keys "k") ⟨firstPages ++ [last], []⟩ =
        (.returned (.ok ["ka", "kb", "kc"]), ⟨[], scans⟩) ∧
      client.perform Script.answer 3 (.entries "k")
          ⟨firstPages ++ last :: [.reply (.data [1]), .reply .nil, .reply (.data [])], []⟩ =
        (.returned (.ok [("ka", [1]), ("kc", [])]), ⟨[], scans ++ gets⟩) ∧
      client.perform Script.answer 3 (.entries "k")
          ⟨firstPages ++ last :: [.reply (.data [1]), .refusal, .silence], []⟩ =
        (.returned (.error (.timeout client.timeout)), ⟨[], scans ++ gets⟩) ∧
      client.perform Script.answer 3 (.keys "k") ⟨firstPages ++ [.refusal], []⟩ =
        (.returned (.error .server), ⟨[], scans⟩) := by
  intro client last scans gets
  have hpage {next : Nat} (hnext : next < Reply.wordLimit) (page : List String) :
      ∃ reply, Server.scanReply next (page.map Bytes.ofText) = .reply reply ∧ reply.page? = some (next, page) := by
    refine ⟨_, rfl, ?_⟩
    rw [List.map_map]
    exact Reply.page?_eq hnext page
  have hfirst : Reads Reply.page? firstPages [(7, ["ka", "kb"]), (9, [])] :=
    .cons (hpage (by decide) _) (.cons (hpage (by decide) _) .nil)
  have hlast : Reads Reply.page? [last] [(0, ["kb", "kc"])] := .cons (hpage (by decide) _) .nil
  have hvalues : Reads Reply.value? [.reply (.data [1]), .reply .nil, .reply (.data [])]
      [some [1], none, some []] := .cons ⟨_, rfl, rfl⟩ (.cons ⟨_, rfl, rfl⟩ (.cons ⟨_, rfl, rfl⟩ .nil))
  have hkeys : (([(7, ["ka", "kb"]), (9, [])].map Prod.snd).flatten ++ ["kb", "kc"]).eraseDups =
      ["ka", "kb", "kc"] := by
    decide +kernel
  obtain ⟨hdone, hfails⟩ := scan_reassembles client "k" hfirst (by decide) (by decide : 2 < 3)
  obtain ⟨hfound, hfetched, hunfetched⟩ := hdone last ["kb", "kc"] hlast
  rw [hkeys] at hfound hfetched hunfetched
  refine ⟨hfound [], (hfetched _ _ [] hvalues rfl).1, ?_, ?_⟩
  · exact hunfetched [] _ [] [] [] [.reply (.data [1]), .refusal, .silence] _ [] (by decide +kernel) .nil rfl rfl
      (.inl ⟨by simp, rfl⟩)
  · exact (hfails .refusal .server [] (.inr ⟨by simp, rfl, .refusal, by simp, .inl rfl⟩)).1

end Client

end Gatehouse
