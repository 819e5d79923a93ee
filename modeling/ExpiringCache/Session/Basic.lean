import ExpiringCache.Cache.Computation
import ExpiringCache.Cache.Sweep
import ExpiringCache.Scope
import ExpiringCache.Settings
import ExpiringCache.Sweeper

/-!
# Sessions

A session is one cache in use: the handles through which callers reach it, the scope of each
handle, the wall clock, the sweepers that were started for the cache, and the journal of events.

All handles share the cache. In a *guarded* session every operation but closing is refused to a
handle whose scope is cancelled, before it does anything; otherwise scopes are not looked at.

There are two clocks. `wall` is what entries are measured against, and it may be set back. `clock`
only moves forward; sweepers go by it. Time passes in strides, which end where the host lets time
stop for a sweeper and where the caller does; sweepers look at the clock after each.
-/

namespace ExpiringCache

/-- One cache in use. -/
structure Session (α β : Type) [Ord α] where
  cache : Cache α β
  wall : Instant
  clock : Nat
  /-- Every sweeper started so far, by number. -/
  sweepers : Array Sweeper
  guarded : Bool
  scopes : Scopes
  /-- The scope of each handle. -/
  handles : Array Nat
  /-- The events since the journal was last read, the newest first. -/
  journal : List (Event α)
  /-- What the sweepers run on. -/
  host : Host

namespace Session

variable {α β ρ : Type} [Ord α] [Std.TransOrd α]

/-- A session with one handle and no sweeper. -/
def ofCache (cache : Cache α β) (guarded : Bool) (wall : Instant) (host : Host := .usual) :
    Session α β :=
  let scope := Scopes.empty.root
  ⟨cache, wall, 0, #[], guarded, scope.2, #[scope.1], [], host⟩

/-- Writes events down in the journal, in order. -/
def record (s : Session α β) (events : List (Event α)) : Session α β :=
  { s with journal := events.reverse ++ s.journal }

/-- The events since the last reading, in order, and the session with an empty journal. -/
def readJournal (s : Session α β) : List (Event α) × Session α β :=
  (s.journal.reverse, { s with journal := [] })

/-- Takes over what a section left behind. A sweeper that the cache has let go is stopped. -/
def commit (s : Session α β) (turn : Turn α β ρ) : ρ × Session α β :=
  let sweepers := match s.cache.sweeper with
    | none => s.sweepers
    | some id =>
      if turn.cache.sweeper = some id then s.sweepers
      else s.sweepers.modify id Sweeper.abort
  (turn.answer, { s with cache := turn.cache, sweepers }.record turn.events)

/-! ## Handles and scopes -/

/-- The scope of a handle. -/
def scopeOf (s : Session α β) (handle : Nat) : Nat := (s.handles[handle]?).getD 0

/-- A new handle with the given scope; answers with its number. -/
def addHandle (s : Session α β) (scope : Nat) : Nat × Session α β :=
  (s.handles.size, { s with handles := s.handles.push scope })

/-- A new handle that shares the scope of `handle`. -/
def clone (s : Session α β) (handle : Nat) : Nat × Session α β := s.addHandle (s.scopeOf handle)

/-- A new handle with a new scope: one derived from the scope of `handle`, or one of its own. -/
def withScope (s : Session α β) (handle : Nat) (derived : Bool) : Nat × Session α β :=
  let made := if derived then s.scopes.child (s.scopeOf handle) else s.scopes.root
  { s with scopes := made.2 }.addHandle made.1

/-- Cancels the scope of a handle, and so every handle that shares it or derives from it. -/
def cancel (s : Session α β) (handle : Nat) : Session α β :=
  { s with scopes := s.scopes.cancel (s.scopeOf handle) }

/-- The scope of a handle is cancelled. -/
def isCancelled (s : Session α β) (handle : Nat) : Bool := s.scopes.isCancelled (s.scopeOf handle)

/-- A handle on one line. -/
def describe (s : Session α β) (handle : Nat) : String :=
  "Cache \x7b ctx: " ++ s.scopes.describe (s.scopeOf handle) ++ ", .. \x7d"

/-- A guarded session refuses work to a handle whose scope is cancelled. -/
def permit (s : Session α β) (handle : Nat) : Except Fault Unit :=
  if s.guarded then s.scopes.check (s.scopeOf handle) else .ok ()

/-! ## Operations -/

/-- Does one operation through a handle. Closing is never refused. -/
def perform (s : Session α β) (handle : Nat) (op : Operation α β) :
    Except Fault (Answer α β) × Session α β :=
  let permitted : Except Fault Unit := match op with
    | .close => .ok ()
    | _ => s.permit handle
  match permitted with
  | .error fault => (.error fault, s)
  | .ok _ => s.commit (s.cache.perform op s.wall)

/-- The first look of a computing call through a handle. -/
def look (s : Session α β) (handle : Nat) (call : Call α) : Phase α β × Session α β :=
  match s.permit handle with
  | .error fault => (.finished (.error fault), s)
  | .ok _ => s.commit (call.look s.cache s.wall)

/-- The second look of a computing call, under the write lock. -/
def enter (s : Session α β) (call : Call α) : Phase α β × Session α β :=
  s.commit (call.enter s.cache s.wall)

/-- The end of a computing call whose loader has run. -/
def conclude (s : Session α β) (call : Call α) (outcome : Except Fault (Option β)) :
    Except Fault (Answer α β) × Session α β :=
  s.commit (call.conclude s.cache outcome s.wall)

/-! ## Clocks and sweepers -/

/-- Sets the wall clock forward or back. -/
def shiftWall (s : Session α β) (ms : Int) : Session α β := { s with wall := s.wall.shift ms }

/-- Moves both clocks forward, to the moment `clock` of the forward one. -/
def moveTo (s : Session α β) (clock : Nat) : Session α β :=
  { s.shiftWall (clock - s.clock : Nat) with clock }

/-- Sweeps the cache once. -/
def sweep (s : Session α β) : Session α β :=
  (s.commit (s.cache.sweep (fun _ => .asListed) s.wall)).2

/-- Starts a sweeper in place of the one that serves the cache; an interval of zero only stops
that one. A closed cache gets none. -/
def startSweeper (s : Session α β) (interval : Nat) : Session α β :=
  if s.cache.closed then s
  else
    let started := Sweeper.start? true interval s.clock s.host.pacing
    match started.1 with
    | none => (s.commit ⟨{ s.cache with sweeper := none }, (), started.2⟩).2
    | some sweeper =>
      let attached :=
        (s.commit ⟨{ s.cache with sweeper := some s.sweepers.size }, (), started.2⟩).2
      { attached with sweepers := attached.sweepers.push sweeper }

/-- Lets the sweeper of the given number do what it is due for. It looks at the clock only now, and
its sweeps take no time. -/
def wake (s : Session α β) (id : Nat) : Session α β :=
  match s.sweepers[id]? with
  | none => s
  | some sweeper =>
    let run := (sweeper.sleepUntil s.clock).runUntil true (fun _ => 0) s.clock
    let s := { s with sweepers := s.sweepers.modify id fun _ => run.1 }
    run.2.foldl (fun s happening => match happening with
      | .began _ => s.sweep
      | _ => s) s

/-- Where the clocks stop next on the way to `limit`: where the host lets time stop for some
sweeper, or at `limit`. -/
def nextStop (s : Session α β) (limit : Nat) : Nat :=
  (s.sweepers.toList.filterMap (s.host.stop? · s.clock)).foldl min limit

/-- Moves both clocks to `limit`, in at most `fuel` strides from stop to stop. After each stride
every sweeper gets its turn. -/
def stride (limit : Nat) : Nat → Session α β → Session α β
  | 0, s => s
  | fuel + 1, s =>
    if s.clock < limit then
      let moved := s.moveTo (s.nextStop limit)
      stride limit fuel ((List.range moved.sweepers.size).foldl wake moved)
    else s

/-- Lets time pass on both clocks. Each stride takes a millisecond at least. -/
def advance (s : Session α β) (ms : Nat) : Session α β := stride (s.clock + ms) ms s

/-! ## Opening a session -/

/-- A session over a new cache that a sweeper serves. -/
def start (settings : Settings) (wall : Instant) (host : Host := .usual) : Session α β :=
  let cache : Cache α β := .empty settings.capacity.toNat settings.sweepBatch.toNat
  (ofCache cache false wall host).startSweeper settings.sweepInterval.toNat

/-- The same for settings that may not make sense. -/
def start? (settings : Settings) (wall : Instant) (host : Host := .usual) :
    Except Fault (Session α β) :=
  settings.validate.map fun _ => start settings wall host

end Session

end ExpiringCache
