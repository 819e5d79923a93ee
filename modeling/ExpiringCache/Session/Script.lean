import ExpiringCache.Session.Request

/-!
# Scripts

Everything that can be done to a session, one `Step` at a time, and `Session.snapshot`, which
looks at the cache from outside without counting a lookup or touching a key.
-/

namespace ExpiringCache

/-- One thing done to a session. -/
inductive Step (α β : Type) where
  | request (request : Request α β)
  | stampede (form : Form) (callers : List (Caller α β))
  /-- Time passes on both clocks. -/
  | advance (ms : Nat)
  /-- The wall clock alone is set, forward or back. -/
  | jump (ms : Int)
  | sweep
  | startSweeper (interval : Nat)
  | statistics
  | isClosed
  | clone (handle : Nat)
  | withScope (handle : Nat) (derived : Bool)
  | cancel (handle : Nat)
  | isCancelled (handle : Nat)
  | describe (handle : Nat)
  /-- Whether two handles reach the same cache. -/
  | sameCache (handle other : Nat)

/-- What a step shows. -/
inductive Shown (α β : Type) where
  | nothing
  | reply (reply : Reply α β)
  | replies (replies : List (Reply α β))
  | flag (yes : Bool)
  /-- The number of a new handle. -/
  | handle (number : Nat)
  | text (line : String)
  | statistics (statistics : Statistics)

/-- A look at the cache from outside. -/
structure Snapshot (α β : Type) where
  size : Nat
  /-- The live keys in their order, with their values and what is left of their lifetimes. -/
  entries : List (α × β × Except Fault TimeLeft)
  statistics : Statistics

namespace Session

variable {α β : Type} [Ord α] [Std.TransOrd α]

/-- Does one step. -/
def step (s : Session α β) : Step α β → Shown α β × Session α β
  | .request request =>
    let done := request.run s
    (.reply done.1, done.2)
  | .stampede form callers =>
    let done := s.stampede form callers
    (.replies done.1, done.2)
  | .advance ms => (.nothing, s.advance ms)
  | .jump ms => (.nothing, s.shiftWall ms)
  | .sweep => (.nothing, s.sweep)
  | .startSweeper interval => (.nothing, s.startSweeper interval)
  | .statistics => (.statistics (s.cache.statistics s.wall), s)
  | .isClosed => (.flag s.cache.closed, s)
  | .clone handle =>
    let made := s.clone handle
    (.handle made.1, made.2)
  | .withScope handle derived =>
    let made := s.withScope handle derived
    (.handle made.1, made.2)
  | .cancel handle => (.nothing, s.cancel handle)
  | .isCancelled handle => (.flag (s.isCancelled handle), s)
  | .describe handle => (.text (s.describe handle), s)
  | .sameCache handle other =>
    (.flag (decide (handle < s.handles.size) && decide (other < s.handles.size)), s)

/-- The cache as it is now. -/
def snapshot (s : Session α β) : Snapshot α β where
  size := (s.cache.size s.wall).answer
  entries := (s.cache.store.liveEntries s.wall).map fun (key, entry) =>
    (key, entry.value, entry.timeLeftAt s.wall)
  statistics := s.cache.statistics s.wall

end Session

end ExpiringCache
