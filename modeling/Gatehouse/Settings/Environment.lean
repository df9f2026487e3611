import Gatehouse.Settings.Basic
import Gatehouse.Settings.Integer
import Gatehouse.Text.Blank

/-!
# Settings from the environment

The settings are read from named variables. Numbers and switches are trimmed of blank characters; a variable that is
not set leaves its default. Variables of engines that are not chosen are not looked at, and the first variable that
cannot be read fails all.
-/

namespace Gatehouse

/-- Why the environment holds no settings. -/
inductive SettingsError where
  | unknownEngine (name : String)
  | invalidNumber (name : String) (cause : IntegerError)
  | invalidSwitch (name : String) (value : String)
  | codeLengthZero
  | invalidAddress
deriving DecidableEq

namespace SettingsError

/-- The texts of a failure, from the outside in. -/
def chain : SettingsError → List String
  | unknownEngine name => ["Unsupported CACHE_ENGINE: " ++ name]
  | invalidNumber name cause => ["Invalid " ++ name, cause.message]
  | invalidSwitch name value => ["Invalid " ++ name ++ ": " ++ value]
  | codeLengthZero => ["OTP_CODE_LENGTH must be at least 1"]
  | invalidAddress => ["Invalid METRICS_ADDR", "invalid socket address syntax"]

end SettingsError

/-- The variables that are set. -/
abbrev Environment := String → Option String

namespace Environment

/-- A number of a type, or a default. -/
def number (env : Environment) (range : IntegerRange) (name : String) (default : Int) : Except SettingsError Int :=
  match env name with
  | none => .ok default
  | some text => (range.parse (trim text.toList)).mapError (.invalidNumber name)

/-- A number that is not below zero, or a default. -/
def natural (env : Environment) (range : IntegerRange) (name : String) (default : Nat) : Except SettingsError Nat :=
  (env.number range name default).map Int.toNat

/-- The words for yes. -/
def yes : List String := ["1", "true", "TRUE", "yes"]

/-- The words for no. -/
def no : List String := ["0", "false", "FALSE", "no"]

/-- A switch, which is off if it is not set or blank. -/
def switch (env : Environment) (name : String) : Except SettingsError Bool :=
  match env name with
  | none => .ok false
  | some text =>
    let value := String.ofList (trim text.toList)
    if value ∈ yes then .ok true
    else if value = "" ∨ value ∈ no then .ok false
    else .error (.invalidSwitch name value)

/-- A text that is not empty. -/
def nonempty (env : Environment) (name : String) : Option String := (env name).filter (· ≠ "")

/-- The settings of the embedded store. -/
def embedded (env : Environment) : Except SettingsError EmbeddedSettings := do
  let temporary ← env.switch "CACHE_EMBEDDED_IN_MEMORY"
  let quiet ← env.switch "CACHE_EMBEDDED_DISABLE_LOGGING"
  let defaults : EmbeddedSettings := {}
  return { path := (env "CACHE_EMBEDDED_PATH").getD defaults.path, temporary, quiet }

/-- The settings of the server. -/
def server (env : Environment) : Except SettingsError ServerSettings := do
  let defaults : ServerSettings := {}
  let port ← env.natural .u16 "REDIS_PORT" defaults.port
  let space ← env.number .i64 "REDIS_DB_INDEX" defaults.space
  let millis ← env.natural .u64 "REDIS_TIMEOUT_MS" defaults.timeout.millis
  let pageSize ← env.natural .u64 "REDIS_SCAN_COUNT" defaults.pageSize
  return { host := (env "REDIS_HOST").getD defaults.host, port, user := env.nonempty "REDIS_USERNAME",
           password := env.nonempty "REDIS_PASSWORD", space, timeout := Span.ofMillis millis, pageSize }

/-- The engines that settings can choose. -/
inductive EngineName where
  | memory
  | embedded
  | server
deriving DecidableEq

/-- The names of the engines, in lower case. -/
def engineNames : List (String × EngineName) :=
  [("memory", .memory), ("inmemory", .memory), ("heap", .memory), ("embedded", .embedded), ("badger", .embedded),
    ("sled", .embedded), ("redis", .server)]

/-- The name of the engine in lower case, without blank characters around it. -/
def engineName (env : Environment) : String :=
  String.ofList ((trim ((env "CACHE_ENGINE").getD "memory").toList).map asciiLower)

/-- The settings of the engine. -/
def engine (env : Environment) : Except SettingsError EngineSettings :=
  match engineNames.lookup env.engineName with
  | some .memory => .ok .memory
  | some .embedded => env.embedded.map .embedded
  | some .server => env.server.map .server
  | none => .error (.unknownEngine env.engineName)

/-- The time between two sweeps; none for zero. -/
def pruneInterval (env : Environment) : Except SettingsError (Option Span) := do
  let seconds ← env.natural .u64 "CACHE_PRUNE_INTERVAL_SECONDS" 60
  return if seconds = 0 then none else some (Span.ofSeconds seconds)

/-- The settings of one-time codes. -/
def codes (env : Environment) : Except SettingsError CodeSettings := do
  let defaults : CodeSettings := {}
  let length ← env.natural .u64 "OTP_CODE_LENGTH" defaults.length
  let lifetime ← env.natural .u64 "OTP_CODE_TTL_SECONDS" defaults.lifetime.seconds
  let sendLimit ← env.natural .u64 "OTP_SEND_LIMIT" defaults.sendLimit
  let sendWindow ← env.natural .u64 "OTP_SEND_WINDOW_SECONDS" defaults.sendWindow.seconds
  if length = 0 then throw .codeLengthZero
  return { length, lifetime := Span.ofSeconds lifetime, sendLimit, sendWindow := Span.ofSeconds sendWindow }

/-- The address at which metrics are shown. -/
def metricsAddress (env : Environment) : Except SettingsError (Option SocketAddress) :=
  match env.nonempty "METRICS_ADDR" with
  | none => .ok none
  | some text =>
    match SocketAddress.parse? text with
    | some a => .ok (some a)
    | none => .error .invalidAddress

/-- Whether log lines are JSON. -/
def jsonLogs (env : Environment) : Bool := (env "LOG_FORMAT").any fun v => v.toList.map asciiLower = "json".toList

/-- The settings that the environment holds. -/
def settings (env : Environment) : Except SettingsError Settings := do
  let engine ← env.engine
  let pruneInterval ← env.pruneInterval
  let codes ← env.codes
  let metricsAddress ← env.metricsAddress
  return { engine, pruneInterval, codes, metricsAddress, jsonLogs := env.jsonLogs }

end Environment

end Gatehouse
