/-!
# Events

What a cache reports about itself while it works, as data. `Event.level` and `Event.text` are the
line that is written for an event.
-/

namespace ExpiringCache

/-- How much attention a line asks for. -/
inductive Level where
  | trace | debug | info | warn
deriving DecidableEq, Repr

namespace Level

/-- How the level is written. -/
def label : Level → String
  | trace => "trace"
  | debug => "debug"
  | info => "info"
  | warn => "warn"

end Level

/-- Something worth a line. -/
inductive Event (α : Type) where
  /-- A sweeper was started with this interval in milliseconds. -/
  | sweeperStarted (interval : Nat)
  /-- A sweeper was asked for with an interval of zero. -/
  | intervalZero
  /-- A sweeper was asked for where nothing can run it. -/
  | hostMissing
  /-- A sweeper ended because what it swept is gone. -/
  | targetGone
  /-- An insert made room by removing these keys, the longest unused first. -/
  | evicted (victims : List α)
  /-- A hit on this key left no note because too many were pending. -/
  | touchDropped (key : α)
  /-- A sweep ended after removing this many expired entries. -/
  | swept (removed : Nat)
  /-- All stored entries, expired ones included, were dropped. -/
  | cleared (dropped : Nat)
  /-- The cache was closed. -/
  | closed
deriving DecidableEq, Repr

namespace Event

variable {α : Type}

/-- The level of the line for an event. -/
def level : Event α → Level
  | sweeperStarted _ | closed => .info
  | intervalZero | hostMissing => .warn
  | targetGone | cleared _ => .debug
  | evicted _ | touchDropped _ => .trace
  | swept removed => if removed = 0 then .trace else .debug

/-- The line for an event. -/
def text : Event α → String
  | sweeperStarted interval =>
    "Starting cache sweeper with interval of " ++ toString interval ++ " ms"
  | intervalZero => "Sweep interval is zero, cache sweeper not started"
  | hostMissing => "No tokio runtime available, cache sweeper not started"
  | targetGone => "Cache sweeper stopped: adapter dropped"
  | evicted victims => "LRU eviction: removed " ++ toString victims.length ++ " entries"
  | touchDropped _ => "Touch buffer full, dropping LRU touch event"
  | swept removed =>
    if removed = 0 then "Cache sweep: no expired entries found"
    else "Cache sweep: removed " ++ toString removed ++ " expired entries"
  | cleared dropped => "Cache cleared: dropped " ++ toString dropped ++ " entries"
  | closed => "Memory cache adapter closed"

/-- The report of an insert: nothing is said of one that removed no other key. -/
def ofVictims : List α → List (Event α)
  | [] => []
  | victims => [evicted victims]

end Event

end ExpiringCache
