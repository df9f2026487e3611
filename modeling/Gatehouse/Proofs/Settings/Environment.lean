import Gatehouse.Proofs.Settings.Integer
import Gatehouse.Proofs.Table
import Gatehouse.Settings.Environment

/-!
# When the environment holds settings

Reading the settings makes demands on the variables, one after another; which ones depends on the engine that is chosen.
There are settings if all demands are met, and otherwise the first one that is not met is what the failure speaks of.
Numbers are given as they are written, and variables that no demand looks at change nothing.
-/

namespace Gatehouse

namespace Environment

/-- The integer that a variable gives: the one that is written there, or the default if the variable is not set. -/
def Gives (env : Environment) (range : IntegerRange) (name : String) (default n : Int) : Prop :=
  match env name with
  | none => n = default
  | some text => range.Denotes (trim text.toList) n

/-- What is demanded of the variables. -/
inductive Demand where
  | engine
  | number (range : IntegerRange) (name : String)
  | switch (name : String)
  /-- Codes have at least one digit. -/
  | codeDigits
  | address

namespace Demand

/-- Whether a demand is met. -/
def Met (env : Environment) : Demand → Prop
  | engine => env.engineName ∈ ["memory", "inmemory", "heap", "embedded", "badger", "sled", "redis"]
  | number range name => ∀ text, env name = some text → ∃ n, range.Denotes (trim text.toList) n
  | switch name => ∀ text, env name = some text →
      String.ofList (trim text.toList) ∈ ["", "1", "true", "TRUE", "yes", "0", "false", "FALSE", "no"]
  | codeDigits => ∀ n, env.Gives .u64 "OTP_CODE_LENGTH" 6 n → 1 ≤ n
  | address => ∀ text, env "METRICS_ADDR" = some text → text = "" ∨ ∃ a, SocketAddress.parse? text = some a

/-- What is said of a demand that is not met. -/
def complaint (env : Environment) : Demand → String
  | engine => "Unsupported CACHE_ENGINE: " ++ env.engineName
  | number _ name => "Invalid " ++ name
  | switch name => "Invalid " ++ name ++ ": " ++ String.ofList (trim ((env name).getD "").toList)
  | codeDigits => "OTP_CODE_LENGTH must be at least 1"
  | address => "Invalid METRICS_ADDR"

theorem complaint_switch (env : Environment) (name : String) :
    complaint env (switch name) = "Invalid " ++ name ++ ": " ++ String.ofList (trim ((env name).getD "").toList) :=
  rfl

/-- A demand is the first one that is not met. -/
def FirstUnmet (env : Environment) (ds : List Demand) (d : Demand) : Prop :=
  ∃ before after, ds = before ++ d :: after ∧ (∀ d' ∈ before, d'.Met env) ∧ ¬d.Met env

end Demand

open Demand

/-! ## Reading under demands -/

section Checks

variable {α β : Type} {env : Environment}

/-- Reading makes demands: what is read if all of them are met has a property, and a failure speaks of the first that
is not. -/
def Checks (env : Environment) (ds : List Demand) (P : α → Prop) : Except SettingsError α → Prop
  | .ok a => (∀ d ∈ ds, d.Met env) ∧ P a
  | .error e => ∃ d, FirstUnmet env ds d ∧ e.chain.head? = some (d.complaint env)

variable {ds ds' : List Demand} {P : α → Prop} {Q : β → Prop} {x : Except SettingsError α}
  {next : α → Except SettingsError β}

theorem checks_pure {a : α} (h : P a) : Checks env [] P (pure a) :=
  ⟨fun _ hd => absurd hd List.not_mem_nil, h⟩

theorem checks_ok {d : Demand} {a : α} (hd : d.Met env) (h : P a) : Checks env [d] P (.ok a) :=
  ⟨List.forall_mem_singleton.mpr hd, h⟩

theorem checks_error {d : Demand} {e : SettingsError} (hd : ¬d.Met env)
    (he : e.chain.head? = some (d.complaint env)) : Checks env (d :: ds) P (.error e) :=
  ⟨d, ⟨[], ds, rfl, fun _ hd' => absurd hd' List.not_mem_nil, hd⟩, he⟩

theorem Checks.cons {d : Demand} (hd : d.Met env) (h : Checks env ds P x) : Checks env (d :: ds) P x := by
  cases x with
  | error e =>
    obtain ⟨d', ⟨before, after, rfl, hbefore, hd'⟩, he⟩ := h
    exact ⟨d', ⟨d :: before, after, rfl, List.forall_mem_cons.mpr ⟨hd, hbefore⟩, hd'⟩, he⟩
  | ok a => exact ⟨List.forall_mem_cons.mpr ⟨hd, h.1⟩, h.2⟩

theorem Checks.bind (h : Checks env ds P x) (hnext : ∀ a, P a → Checks env ds' Q (next a)) :
    Checks env (ds ++ ds') Q (x >>= next) := by
  cases x with
  | error e =>
    obtain ⟨d, ⟨before, after, rfl, hbefore, hd⟩, he⟩ := h
    refine ⟨d, ⟨before, after ++ ds', ?_, hbefore, hd⟩, he⟩
    rw [List.append_assoc, List.cons_append]
  | ok a =>
    obtain ⟨hds, ha⟩ := h
    have hrest := hnext a ha
    change Checks env (ds ++ ds') Q (next a)
    -- the demands before are met, so the first that is not is one of those after
    cases hn : next a with
    | error e =>
      rw [hn] at hrest
      obtain ⟨d, ⟨before, after, rfl, hbefore, hd⟩, he⟩ := hrest
      refine ⟨d, ⟨ds ++ before, after, (List.append_assoc ..).symm, ?_, hd⟩, he⟩
      exact List.forall_mem_append.mpr ⟨hds, hbefore⟩
    | ok b =>
      rw [hn] at hrest
      exact ⟨List.forall_mem_append.mpr ⟨hds, hrest.1⟩, hrest.2⟩

theorem Checks.map {f : α → β} (h : Checks env ds P x) (hf : ∀ a, P a → Q (f a)) : Checks env ds Q (x.map f) := by
  cases x with
  | error e => exact h
  | ok a => exact ⟨h.1, hf a h.2⟩

theorem Checks.of_ok {a : α} (h : Checks env ds P x) (hx : x = .ok a) : P a := by
  rw [hx] at h
  exact h.2

theorem Checks.of_error {e : SettingsError} (h : Checks env ds P x) (hx : x = .error e) :
    ∃ d, FirstUnmet env ds d ∧ e.chain.head? = some (d.complaint env) := by
  rw [hx] at h
  exact h

theorem Checks.ok_iff (h : Checks env ds P x) : (∃ a, x = .ok a) ↔ ∀ d ∈ ds, d.Met env := by
  cases x with
  | error e =>
    obtain ⟨d, ⟨before, after, rfl, -, hd⟩, -⟩ := h
    exact ⟨nofun, fun hall => absurd (hall d (by simp)) hd⟩
  | ok a => exact ⟨fun _ => h.1, fun _ => ⟨a, rfl⟩⟩

end Checks

/-! ## Single variables -/

section Variables

variable {env : Environment} {range : IntegerRange} {name text : String} {default n : Int}

theorem forall_of_unset {P : String → Prop} (h : env name = none) : ∀ t, env name = some t → P t := by
  simp [h]

theorem forall_iff_of_set {P : String → Prop} (h : env name = some text) :
    (∀ t, env name = some t → P t) ↔ P text := by
  simp [h]

theorem gives_of_unset (h : env name = none) : env.Gives range name default n ↔ n = default := by
  rw [Gives, h]

theorem gives_of_set (h : env name = some text) :
    env.Gives range name default n ↔ range.Denotes (trim text.toList) n := by
  rw [Gives, h]

theorem number_of_unset (h : env name = none) : env.number range name default = .ok default := by
  rw [number, h]

theorem number_of_set (h : env name = some text) :
    env.number range name default = (range.parse (trim text.toList)).mapError (.invalidNumber name) := by
  rw [number, h]

/-- A number is read if it is what its variable gives. -/
theorem number_eq_ok_iff (hzero : range.HasZero) :
    env.number range name default = .ok n ↔ env.Gives range name default n := by
  cases htext : env name with
  | none => rw [gives_of_unset htext, number_of_unset htext, Except.ok.injEq, eq_comm]
  | some text =>
    rw [gives_of_set htext, number_of_set htext, ← IntegerRange.parse_eq_ok_iff hzero]
    cases range.parse (trim text.toList) with
    | error cause => exact ⟨nofun, nofun⟩
    | ok m =>
      change Except.ok m = Except.ok n ↔ _
      rw [Except.ok.injEq, Except.ok.injEq]

theorem number_error {e : SettingsError} (h : env.number range name default = .error e) :
    ∃ cause, e = .invalidNumber name cause := by
  cases htext : env name with
  | none =>
    rw [number_of_unset htext] at h
    cases h
  | some text =>
    rw [number_of_set htext] at h
    cases hparse : range.parse (trim text.toList) with
    | error cause =>
      rw [hparse] at h
      exact ⟨cause, (Except.error.inj h).symm⟩
    | ok n =>
      rw [hparse] at h
      cases h

theorem met_number_iff (default : Int) :
    (Demand.number range name).Met env ↔ ∃ n, env.Gives range name default n := by
  cases htext : env name with
  | none => exact iff_of_true (forall_of_unset htext) ⟨default, (gives_of_unset htext).mpr rfl⟩
  | some text =>
    simp only [gives_of_set htext]
    exact forall_iff_of_set htext

theorem checks_number (hzero : range.HasZero) (name : String) (default : Int) :
    Checks env [.number range name] (env.Gives range name default) (env.number range name default) := by
  cases hread : env.number range name default with
  | ok n =>
    have hgives := (number_eq_ok_iff hzero).mp hread
    exact checks_ok ((met_number_iff default).mpr ⟨n, hgives⟩) hgives
  | error e =>
    obtain ⟨cause, rfl⟩ := number_error hread
    refine checks_error (fun hmet => ?_) rfl
    obtain ⟨n, hgives⟩ := (met_number_iff default).mp hmet
    rw [(number_eq_ok_iff hzero).mpr hgives] at hread
    cases hread

/-- A variable gives one number only. -/
theorem Gives.unique {m : Int} (hzero : range.HasZero) (hn : env.Gives range name default n)
    (hm : env.Gives range name default m) : n = m := by
  rw [← number_eq_ok_iff hzero] at hn hm
  exact Except.ok.inj (hn.symm.trans hm)

theorem Gives.nonneg (hlow : range.low = 0) {default : Nat} (h : env.Gives range name default n) : 0 ≤ n := by
  cases htext : env name with
  | none =>
    rw [(gives_of_unset htext).mp h]
    exact Int.natCast_nonneg default
  | some text => exact hlow ▸ ((gives_of_set htext).mp h).low_le

theorem checks_natural (hzero : range.HasZero) (hlow : range.low = 0) (name : String) (default : Nat) :
    Checks env [.number range name] (fun n : Nat => env.Gives range name default n)
      (env.natural range name default) := by
  refine (checks_number hzero name default).map fun n hn => ?_
  rwa [Int.toNat_of_nonneg (hn.nonneg hlow)]

theorem met_switch_iff (h : env name = some text) : (Demand.switch name).Met env ↔
    String.ofList (trim text.toList) = "" ∨ String.ofList (trim text.toList) ∈ yes ∨
      String.ofList (trim text.toList) ∈ no := by
  have hwords : (Demand.switch name).Met env ↔
      ∀ text, env name = some text → String.ofList (trim text.toList) ∈ "" :: (yes ++ no) := Iff.rfl
  rw [hwords, forall_iff_of_set h, List.mem_cons, List.mem_append]

theorem checks_switch (name : String) : Checks env [.switch name] (fun _ => True) (env.switch name) := by
  unfold switch
  cases htext : env name with
  | none => exact checks_ok (forall_of_unset htext) trivial
  | some text =>
    simp only
    split
    · next hyes => exact checks_ok ((met_switch_iff htext).mpr (.inr (.inl hyes))) trivial
    · next hyes =>
      split
      · next hno => exact checks_ok ((met_switch_iff htext).mpr (hno.imp_right .inr)) trivial
      · next hno =>
        refine checks_error (d := .switch name) (fun hmet => ?_) ?_
        · rcases (met_switch_iff htext).mp hmet with hword | hword | hword
          · exact hno (.inl hword)
          · exact hyes hword
          · exact hno (.inr hword)
        · rw [complaint_switch, htext]
          rfl

end Variables

/-! ## Parts of the settings -/

/-- The numbers of the server are the ones that are written. -/
structure GivesServer (env : Environment) (s : ServerSettings) : Prop where
  port : env.Gives .u16 "REDIS_PORT" 6379 s.port
  space : env.Gives .i64 "REDIS_DB_INDEX" 0 s.space
  timeout : ∃ n : Nat, env.Gives .u64 "REDIS_TIMEOUT_MS" 2000 n ∧ s.timeout = Span.ofMillis n
  pageSize : env.Gives .u64 "REDIS_SCAN_COUNT" 100 s.pageSize

/-- The numbers of one-time codes are the ones that are written. -/
structure GivesCodes (env : Environment) (s : CodeSettings) : Prop where
  length : env.Gives .u64 "OTP_CODE_LENGTH" 6 s.length
  lifetime : ∃ n : Nat, env.Gives .u64 "OTP_CODE_TTL_SECONDS" 300 n ∧ s.lifetime = Span.ofSeconds n
  sendLimit : env.Gives .u64 "OTP_SEND_LIMIT" 3 s.sendLimit
  sendWindow : ∃ n : Nat, env.Gives .u64 "OTP_SEND_WINDOW_SECONDS" 600 n ∧ s.sendWindow = Span.ofSeconds n

/-- The time between two sweeps is the one that is written, and none for zero. -/
def GivesPruneInterval (env : Environment) (interval : Option Span) : Prop :=
  ∃ n : Nat, env.Gives .u64 "CACHE_PRUNE_INTERVAL_SECONDS" 60 n ∧
    interval = if n = 0 then none else some (Span.ofSeconds n)

/-- The name of the engine that settings have. -/
def engineOf : EngineSettings → EngineName
  | .memory => .memory
  | .embedded _ => .embedded
  | .server _ => .server

/-- The engine is the one that is chosen, and its numbers are the ones that are written. -/
structure GivesEngine (env : Environment) (engine : EngineSettings) : Prop where
  chosen : engineNames.lookup env.engineName = some (engineOf engine)
  server : ∀ s, engine = .server s → env.GivesServer s

/-- What an engine demands. -/
def EngineName.demands : EngineName → List Demand
  | .memory => []
  | .embedded => [.switch "CACHE_EMBEDDED_IN_MEMORY", .switch "CACHE_EMBEDDED_DISABLE_LOGGING"]
  | .server => [.number .u16 "REDIS_PORT", .number .i64 "REDIS_DB_INDEX", .number .u64 "REDIS_TIMEOUT_MS",
      .number .u64 "REDIS_SCAN_COUNT"]

/-- What the engine that is chosen demands; nothing if there is none. -/
def engineDemands (env : Environment) : List Demand :=
  (engineNames.lookup env.engineName).elim [] EngineName.demands

section Parts

variable (env : Environment)

theorem checks_embedded : Checks env EngineName.embedded.demands (fun _ => True) env.embedded :=
  (checks_switch "CACHE_EMBEDDED_IN_MEMORY").bind fun _ _ =>
    (checks_switch "CACHE_EMBEDDED_DISABLE_LOGGING").bind fun _ _ => checks_pure trivial

theorem checks_server : Checks env EngineName.server.demands env.GivesServer env.server := by
  refine (checks_natural (by decide) rfl "REDIS_PORT" 6379).bind fun port hport => ?_
  refine (checks_number (by decide) "REDIS_DB_INDEX" 0).bind fun space hspace => ?_
  refine (checks_natural (by decide) rfl "REDIS_TIMEOUT_MS" 2000).bind fun millis hmillis => ?_
  refine (checks_natural (by decide) rfl "REDIS_SCAN_COUNT" 100).bind fun pageSize hpageSize => ?_
  exact checks_pure ⟨hport, hspace, ⟨millis, hmillis, rfl⟩, hpageSize⟩

theorem met_engine_iff : Demand.engine.Met env ↔ engineNames.lookup env.engineName ≠ none := by
  have hnames : Demand.engine.Met env ↔ env.engineName ∈ engineNames.map Prod.fst := Iff.rfl
  rw [hnames, Ne, List.lookup_eq_none_iff]
  simp

theorem checks_engine : Checks env (.engine :: env.engineDemands) env.GivesEngine env.engine := by
  unfold engineDemands engine
  cases hengine : engineNames.lookup env.engineName with
  | none => exact checks_error (fun hmet => (met_engine_iff env).mp hmet hengine) rfl
  | some name =>
    have hmet : Demand.engine.Met env := by
      rw [met_engine_iff, hengine]
      exact Option.some_ne_none name
    cases name with
    | memory => exact checks_ok hmet ⟨hengine, nofun⟩
    | embedded => exact (env.checks_embedded.map fun s _ => ⟨hengine, nofun⟩).cons hmet
    | server =>
      refine (env.checks_server.map fun s hs => ⟨hengine, ?_⟩).cons hmet
      rintro _ ⟨⟩
      exact hs

theorem checks_pruneInterval : Checks env [.number .u64 "CACHE_PRUNE_INTERVAL_SECONDS"] env.GivesPruneInterval
    env.pruneInterval :=
  (checks_natural (by decide) rfl "CACHE_PRUNE_INTERVAL_SECONDS" 60).bind fun n hn => checks_pure ⟨n, hn, rfl⟩

theorem checks_codes :
    Checks env [.number .u64 "OTP_CODE_LENGTH", .number .u64 "OTP_CODE_TTL_SECONDS", .number .u64 "OTP_SEND_LIMIT",
      .number .u64 "OTP_SEND_WINDOW_SECONDS", .codeDigits] env.GivesCodes env.codes := by
  refine (checks_natural (by decide) rfl "OTP_CODE_LENGTH" 6).bind fun length hlength => ?_
  refine (checks_natural (by decide) rfl "OTP_CODE_TTL_SECONDS" 300).bind fun lifetime hlifetime => ?_
  refine (checks_natural (by decide) rfl "OTP_SEND_LIMIT" 3).bind fun sendLimit hsendLimit => ?_
  refine (checks_natural (by decide) rfl "OTP_SEND_WINDOW_SECONDS" 600).bind fun sendWindow hsendWindow => ?_
  split
  · next hzero =>
    refine checks_error (fun hmet => ?_) rfl
    have hpos := hmet length hlength
    omega
  · next hne =>
    refine checks_ok (fun n hn => ?_) ⟨hlength, ⟨lifetime, hlifetime, rfl⟩, hsendLimit, sendWindow, hsendWindow, rfl⟩
    -- the number that the variable gives is the one that was read
    have heq := hn.unique (by decide) hlength
    omega

theorem checks_metricsAddress : Checks env [.address] (fun _ => True) env.metricsAddress := by
  unfold metricsAddress nonempty
  cases htext : env "METRICS_ADDR" with
  | none => exact checks_ok (forall_of_unset htext) trivial
  | some text =>
    have hmet : Demand.address.Met env ↔ text = "" ∨ ∃ a, SocketAddress.parse? text = some a := forall_iff_of_set htext
    rw [Option.filter_some]
    by_cases hempty : text = ""
    · rw [if_neg (by simp [hempty])]
      exact checks_ok (hmet.mpr (.inl hempty)) trivial
    · rw [if_pos (by simp [hempty])]
      dsimp only
      cases hparse : SocketAddress.parse? text with
      | none =>
        refine checks_error (fun h => ?_) rfl
        rcases hmet.mp h with h | ⟨a, ha⟩
        · exact hempty h
        · rw [hparse] at ha
          cases ha
      | some a => exact checks_ok (hmet.mpr (.inr ⟨a, hparse⟩)) trivial

end Parts

/-! ## All settings -/

/-- What is demanded of an environment, in the order in which it is looked at. -/
def demands (env : Environment) : List Demand :=
  (.engine :: env.engineDemands) ++
    [.number .u64 "CACHE_PRUNE_INTERVAL_SECONDS", .number .u64 "OTP_CODE_LENGTH", .number .u64 "OTP_CODE_TTL_SECONDS",
      .number .u64 "OTP_SEND_LIMIT", .number .u64 "OTP_SEND_WINDOW_SECONDS", .codeDigits, .address]

/-- The numbers of the settings are the ones that are written. -/
structure GivesNumbers (env : Environment) (s : Settings) : Prop where
  engine : env.GivesEngine s.engine
  pruneInterval : env.GivesPruneInterval s.pruneInterval
  codes : env.GivesCodes s.codes

theorem checks_settings (env : Environment) : Checks env env.demands env.GivesNumbers env.settings := by
  refine env.checks_engine.bind fun engine hengine => ?_
  refine env.checks_pruneInterval.bind fun pruneInterval hpruneInterval => ?_
  refine env.checks_codes.bind fun codes hcodes => ?_
  refine env.checks_metricsAddress.bind fun metricsAddress _ => ?_
  exact checks_pure ⟨hengine, hpruneInterval, hcodes⟩

/-! ## Variables that are not looked at -/

/-- The variables of an engine. -/
def EngineName.variables : EngineName → List String
  | .memory => []
  | .embedded => ["CACHE_EMBEDDED_PATH", "CACHE_EMBEDDED_IN_MEMORY", "CACHE_EMBEDDED_DISABLE_LOGGING"]
  | .server => ["REDIS_HOST", "REDIS_PORT", "REDIS_USERNAME", "REDIS_PASSWORD", "REDIS_DB_INDEX", "REDIS_TIMEOUT_MS",
      "REDIS_SCAN_COUNT"]

/-- The variables that are looked at with every engine. -/
def commonVariables : List String :=
  ["CACHE_ENGINE", "CACHE_PRUNE_INTERVAL_SECONDS", "OTP_CODE_LENGTH", "OTP_CODE_TTL_SECONDS", "OTP_SEND_LIMIT",
    "OTP_SEND_WINDOW_SECONDS", "METRICS_ADDR", "LOG_FORMAT"]

/-- An engine shares no variable with another one. -/
theorem EngineName.eq_of_mem_variables {e e' : EngineName} {name : String} (h : name ∈ e.variables)
    (h' : name ∈ e'.variables) : e = e' := by
  have hshared : ∀ n ∈ e.variables, n ∈ e'.variables → e = e' := by
    cases e <;> cases e' <;> decide
  exact hshared name h h'

/-- An engine shares no variable with the rest of the settings. -/
theorem EngineName.not_mem_commonVariables {e : EngineName} {name : String} (h : name ∈ e.variables) :
    name ∉ commonVariables := by
  have hshared : ∀ n ∈ e.variables, n ∉ commonVariables := by
    cases e <;> decide
  exact hshared name h

section Congruence

variable {env env' : Environment}

theorem number_congr {name : String} (h : env' name = env name) (range : IntegerRange) (default : Int) :
    env'.number range name default = env.number range name default := by
  rw [number, number, h]

theorem natural_congr {name : String} (h : env' name = env name) (range : IntegerRange) (default : Nat) :
    env'.natural range name default = env.natural range name default := by
  rw [natural, natural, number_congr h]

theorem switch_congr {name : String} (h : env' name = env name) : env'.switch name = env.switch name := by
  rw [switch, switch, h]

theorem nonempty_congr {name : String} (h : env' name = env name) : env'.nonempty name = env.nonempty name := by
  rw [nonempty, nonempty, h]

theorem embedded_congr (h : ∀ name ∈ EngineName.embedded.variables, env' name = env name) :
    env'.embedded = env.embedded := by
  simp only [EngineName.variables, List.forall_mem_cons] at h
  obtain ⟨hpath, htemporary, hquiet, -⟩ := h
  simp only [embedded, switch_congr htemporary, switch_congr hquiet, hpath]

theorem server_congr (h : ∀ name ∈ EngineName.server.variables, env' name = env name) :
    env'.server = env.server := by
  simp only [EngineName.variables, List.forall_mem_cons] at h
  obtain ⟨hhost, hport, huser, hpassword, hspace, htimeout, hpageSize, -⟩ := h
  simp only [server, natural_congr hport, number_congr hspace, natural_congr htimeout, natural_congr hpageSize,
    nonempty_congr huser, nonempty_congr hpassword, hhost]

theorem engine_congr (hname : env' "CACHE_ENGINE" = env "CACHE_ENGINE")
    (h : ∀ chosen, engineNames.lookup env.engineName = some chosen → ∀ name ∈ chosen.variables, env' name = env name) :
    env'.engine = env.engine := by
  have hengine : env'.engineName = env.engineName := by rw [engineName, engineName, hname]
  rw [engine, engine, hengine]
  cases hchosen : engineNames.lookup env.engineName with
  | none => rfl
  | some chosen =>
    have hvariables := h chosen hchosen
    cases chosen with
    | memory => rfl
    | embedded => exact congrArg (Except.map EngineSettings.embedded) (embedded_congr hvariables)
    | server => exact congrArg (Except.map EngineSettings.server) (server_congr hvariables)

/-- The settings depend on the variables of the engine that is chosen and on those that are looked at with every
engine. -/
theorem settings_congr (hcommon : ∀ name ∈ commonVariables, env' name = env name)
    (h : ∀ chosen, engineNames.lookup env.engineName = some chosen → ∀ name ∈ chosen.variables, env' name = env name) :
    env'.settings = env.settings := by
  simp only [commonVariables, List.forall_mem_cons] at hcommon
  obtain ⟨hname, hprune, hlength, hlifetime, hsendLimit, hsendWindow, haddress, hformat, -⟩ := hcommon
  have hpruneInterval : env'.pruneInterval = env.pruneInterval := by
    rw [pruneInterval, pruneInterval, natural_congr hprune]
  have hcodes : env'.codes = env.codes := by
    simp only [codes, natural_congr hlength, natural_congr hlifetime, natural_congr hsendLimit,
      natural_congr hsendWindow]
  have hmetricsAddress : env'.metricsAddress = env.metricsAddress := by
    rw [metricsAddress, metricsAddress, nonempty_congr haddress]
  have hjsonLogs : env'.jsonLogs = env.jsonLogs := by rw [jsonLogs, jsonLogs, hformat]
  rw [settings, settings, engine_congr hname h, hpruneInterval, hcodes, hmetricsAddress, hjsonLogs]

/-- Variables of engines that are not chosen change nothing. -/
theorem settings_eq_of_unchosen (h : ∀ name, env' name ≠ env name →
    ∃ other, engineNames.lookup env.engineName ≠ some other ∧ name ∈ EngineName.variables other) :
    env'.settings = env.settings := by
  refine settings_congr (fun name hname => ?_) fun chosen hchosen name hname => ?_
  · refine Decidable.byContradiction fun hne => ?_
    obtain ⟨other, -, hother⟩ := h name hne
    exact other.not_mem_commonVariables hother hname
  · refine Decidable.byContradiction fun hne => ?_
    obtain ⟨other, hunchosen, hother⟩ := h name hne
    exact hunchosen (EngineName.eq_of_mem_variables hname hother ▸ hchosen)

end Congruence

/-- There are settings if all demands are met. Their numbers are then the ones that are written, and otherwise the
failure speaks of the first demand that is not met. Variables of engines that are not chosen change nothing. -/
theorem settings_exist_iff_met (env : Environment) :
    ((∃ s, env.settings = .ok s) ↔ ∀ d ∈ env.demands, d.Met env) ∧
      (∀ s, env.settings = .ok s → env.GivesNumbers s) ∧
      (∀ e, env.settings = .error e → ∃ d, FirstUnmet env env.demands d ∧ e.chain.head? = some (d.complaint env)) ∧
      ∀ env' : Environment, (∀ name, env' name ≠ env name →
          ∃ other, engineNames.lookup env.engineName ≠ some other ∧ name ∈ EngineName.variables other) →
        env'.settings = env.settings := by
  have hchecks := env.checks_settings
  exact ⟨hchecks.ok_iff, fun _ => hchecks.of_ok, fun _ => hchecks.of_error, fun _ => settings_eq_of_unchosen⟩

end Environment

end Gatehouse
