import Gatehouse.Cache.Call
import Gatehouse.Cache.Server.Command
import Gatehouse.Cache.Server.Glob
import Gatehouse.Cache.Server.Reply

/-!
# The client of a server

Every call of the engine is one command or a few. Each request, which is a command or a batch of commands sent
together, has to be answered within the time allowed. The keys under a text are found by walking the pages of a scan
until the cursor comes back to zero; their values are fetched in batches. The client knows of the server only what
comes back for each command.
-/

namespace Gatehouse

/-- The far end of a connection: what comes back for a command, and the far end afterwards. -/
abbrev Peer (σ : Type) := Command → σ → Response × σ

namespace Reply

/-- Whether a reply says yes. -/
def truth? : Reply → Option Bool
  | int n => some (n ≠ 0)
  | nil => some false
  | okay => some true
  | data b | status b => if b = [0x31] then some true else if b = [0x30] then some false else none
  | array _ => none

/-- A signed word. -/
def word? : Reply → Option Int
  | int n => if isWord n then some n else none
  | data b | status b => (int? b).filter isWord
  | _ => none

/-- The number of words of 64 bits. -/
def wordLimit : Nat := 18446744073709551616

/-- An unsigned number below a limit. An integer wraps; in a text only numbers below the limit are read. -/
def unsigned? (limit : Nat) : Reply → Option Nat
  | int n => if isWord n then some (n % limit).toNat else none
  | data b | status b =>
    if b.head? = some 0x2D then none else ((int? b).map Int.toNat).filter fun n => n < limit
  | _ => none

/-- A text. -/
def text? : Reply → Option String
  | data b | status b => Bytes.text? b
  | okay => some "OK"
  | _ => none

/-- A list of texts; a text alone is a list of one. -/
def texts? : Reply → Option (List String)
  | array items => items.mapM text?
  | data b => (Bytes.text? b).map fun s => [s]
  | nil => some []
  | _ => none

/-- A stored value, if there is one. -/
def value? : Reply → Option (Option Bytes)
  | nil => some none
  | data b => some (some b)
  | array items => (items.mapM fun r => (unsigned? 256 r).map UInt8.ofNat).map some
  | _ => none

/-- A page of a scan: the next cursor and the keys. -/
def page? : Reply → Option (Nat × List String)
  | array [cursor, keys] => do return (← cursor.unsigned? wordLimit, ← keys.texts?)
  | _ => none

end Reply

/-- A client of a server. -/
structure Client where
  /-- The time allowed for a request. -/
  timeout : Span
  /-- The number of keys to ask for in a page of a scan. -/
  pageSize : Nat
deriving DecidableEq

namespace Client

variable {σ α : Type}

/-- A client that asks for at least one key in a page. -/
def new (timeout : Span) (pageSize : Nat) : Client := ⟨timeout, max 1 pageSize⟩

/-- The number of values fetched in one batch. -/
def batchSize : Nat := 256

/-- What comes back for a batch of commands. -/
def send (peer : Peer σ) : List Command → σ → List Response × σ
  | [], s => ([], s)
  | c :: rest, s =>
    let (r, s) := peer c s
    let (l, s) := send peer rest s
    (r :: l, s)

/-- The reply of a response, if it is one. -/
def reply? : Response → Option Reply
  | .reply r => some r
  | _ => none

/-- Whether nothing came back. -/
def isSilence : Response → Bool
  | .silence => true
  | _ => false

/-- The replies to a request. A command without any answer lets the whole request time out, and else a refusal fails
it. -/
def replies (client : Client) (l : List Response) : Except CacheError (List Reply) :=
  if l.any isSilence then .error (.timeout client.timeout)
  else match l.mapM reply? with
    | some l => .ok l
    | none => .error .server

/-- Sends a batch of commands and reads every reply. -/
def request (peer : Peer σ) (client : Client) (read : Reply → Option α) (batch : List Command) (s : σ) :
    Except CacheError (List α) × σ :=
  let (responses, s) := send peer batch s
  (match client.replies responses with
    | .error e => .error e
    | .ok l => match l.mapM read with
      | some values => .ok values
      | none => .error .server, s)

/-- Sends one command and reads its reply. -/
def ask (peer : Peer σ) (client : Client) (read : Reply → Option α) (c : Command) (s : σ) : Except CacheError α × σ :=
  let (r, s) := request peer client read [c] s
  (match r with
    | .ok [a] => .ok a
    | .ok _ => .error .server
    | .error e => .error e, s)

/-- Adds the keys of a page to those found before, leaving out the ones that are already there. -/
def addPage (found page : List String) : List String :=
  page.foldl (fun found key => if key ∈ found then found else found ++ [key]) found

/-- The command for a page of the keys that start with a text. -/
def scanCommand (client : Client) (stem : String) (cursor : Nat) : Command :=
  .scan cursor (Glob.startingWith (Bytes.ofText stem)) client.pageSize

/-- Walks the pages of a scan from a cursor on. The fuel is a bound on the number of pages; there is no result if the
cursor has not come back to zero by then. -/
def walk (peer : Peer σ) (client : Client) (stem : String) :
    (fuel cursor : Nat) → (found : List String) → σ → Option (Except CacheError (List String)) × σ
  | 0, _, _, s => (none, s)
  | fuel + 1, cursor, found, s =>
    match ask peer client Reply.page? (client.scanCommand stem cursor) s with
    | (.error e, s) => (some (.error e), s)
    | (.ok (next, page), s) =>
      if next = 0 then (some (.ok (addPage found page)), s)
      else walk peer client stem fuel next (addPage found page) s

/-- Cuts a list into batches of a size, given the items of the first batch in reverse. -/
def batchesFrom (size : Nat) : (current : List α) → List α → List (List α)
  | [], [] => []
  | current, [] => [current.reverse]
  | current, a :: rest =>
    if current.length + 1 < size then batchesFrom size (a :: current) rest
    else (a :: current).reverse :: batchesFrom size [] rest

/-- Cuts a list into batches of a size. -/
def batches (size : Nat) (l : List α) : List (List α) := batchesFrom size [] l

/-- The keys of a batch that have a value, with their values. -/
def present (keys : List String) (values : List (Option Bytes)) : List (String × Bytes) :=
  (keys.zip values).filterMap fun e => e.2.map fun b => (e.1, b)

/-- Fetches the values of batches of keys, a batch at a time, and leaves out the keys that have none. -/
def fetchAll (peer : Peer σ) (client : Client) : List (List String) → σ → Except CacheError (List (String × Bytes)) × σ
  | [], s => (.ok [], s)
  | batch :: rest, s =>
    match request peer client Reply.value? (batch.map Command.get) s with
    | (.error e, s) => (.error e, s)
    | (.ok values, s) =>
      let (found, s) := fetchAll peer client rest s
      (found.map fun l => present batch values ++ l, s)

/-- The lifetime that the server reports for a key. -/
def lifetime (millis : Int) : Except CacheError (Option Span) :=
  if millis = -2 then .error .keyNotFound
  else if millis = -1 then .ok none
  else .ok (some (Span.ofMillis millis.toNat))

/-- Reads nothing out of a reply, whatever it is. -/
def anything (_ : Reply) : Option Unit := some ()

/-- The answer of a call that always comes to an end. -/
def settled (r : Except CacheError α × σ) : Outcome (Except CacheError α) × σ := (.returned r.1, r.2)

/-- A call through a connection that is open. The fuel bounds the pages of a scan; a scan that goes on beyond it has
no answer. -/
def perform (peer : Peer σ) (client : Client) (fuel : Nat) : (c : EngineCall) → σ → c.Answer × σ
  | .has key, s => settled (ask peer client Reply.truth? (.holds key) s)
  | .fetch key, s =>
    let (r, s) := ask peer client Reply.value? (.get key) s
    settled (r.bind fun v => match v with
      | some b => .ok b
      | none => .error .keyNotFound, s)
  | .put key value lifetime, s =>
    settled (ask peer client anything (.set key value (lifetime.map fun d => max 1 d.millisWord)) s)
  | .delete key, s => settled (ask peer client anything (.del key) s)
  | .take key, s =>
    let (r, s) := ask peer client (Reply.unsigned? Reply.wordLimit) (.del key) s
    settled (r.map fun n => n ≠ 0, s)
  | .keys stem, s =>
    match walk peer client stem fuel 0 [] s with
    | (none, s) => (.abandoned, s)
    | (some r, s) => (.returned r, s)
  | .entries stem, s =>
    match walk peer client stem fuel 0 [] s with
    | (none, s) => (.abandoned, s)
    | (some (.error e), s) => (.returned (.error e), s)
    | (some (.ok keys), s) => settled (fetchAll peer client (batches batchSize keys) s)
  | .remaining key, s =>
    let (r, s) := ask peer client Reply.word? (.pttl key) s
    settled (r.bind lifetime, s)
  | .flush, s => settled (ask peer client anything .flush s)
  | .close, s => settled (.ok (), s)

end Client

end Gatehouse
