import Gatehouse.Cache.Typed

/-!
# Limiters

A limiter counts attempts within a window that slides with the clock. Every attempt is an entry of the cache under the
second in which it was made, to live as long as the window, so the count is the number of live keys and attempts
within one second count once.
-/

namespace Gatehouse

/-- A limiter of the attempts of one list of ids. -/
structure Limiter where
  /-- The name space under which rejections are counted. -/
  space : String
  /-- What the keys of its attempts start with, before the separator. -/
  stem : String
  /-- How long an attempt counts; for ever if zero. -/
  window : Span
deriving DecidableEq

namespace Limiter

/-- The limiter of a list of ids in a name space. -/
def of (space : String) (ids : List String) (window : Span) : Limiter := ⟨space, Keys.limiterStem space ids, window⟩

/-- What the keys of its attempts start with. The separator keeps the attempts of longer ids apart. -/
def attemptStem (l : Limiter) : String := l.stem ++ ":"

/-- The keys of the attempts that count. -/
def attempts (l : Limiter) : CacheAction (List String) := Cache.keys l.attemptStem

/-- The number of attempts that count. If they cannot be listed, none does. -/
def count (l : Limiter) : Action Nat := do
  match ← l.attempts.run with
  | .ok keys => return keys.length
  | .error _ => return 0

/-- Rejects an action once a number of attempts count. -/
def guard (l : Limiter) (limit : Nat) : ServiceAction Unit :=
  ExceptT.mk do
    let used ← l.count
    if limit ≤ used then
      Action.record (.rejection l.space)
      return .error (.rateLimited limit used)
    else return .ok ()

/-- Records an attempt in a second. -/
def recordAt (l : Limiter) (unixSeconds : Int64) : ServiceAction Unit :=
  CacheAction.lift (Cache.put (Keys.attempt l.stem unixSeconds.toInt) unixSeconds (some l.window))

/-- Records an attempt now. -/
def record (l : Limiter) : ServiceAction Unit := do
  let now ← (Action.clock : Action Instant)
  l.recordAt (Int64.ofInt now.seconds)

/-- Forgets the attempts, one key at a time. -/
def clear (l : Limiter) : ServiceAction Unit := do
  let keys ← CacheAction.lift l.attempts
  keys.forM fun key => CacheAction.lift (Cache.delete key)

end Limiter

end Gatehouse
