import ExpiringCache.Event
import ExpiringCache.Store
import ExpiringCache.Touches

/-!
# The cache and its critical sections

A `Cache` is a store, the touches that lookups left behind, and whether it was closed. Callers
reach the store through critical sections: a *read section* sees the store as it is and may only
count a lookup and leave a touch; a *write section* first replays the pending touches, then
changes the store. Once the cache is closed no write section does anything.

Every operation is one or more sections. A `Turn` is what one of them leaves behind: the cache,
the answer to the caller, and the events in the order they happened. Sections of different callers
may follow each other in any order; each of them happens at one reading of the clock.
-/

namespace ExpiringCache

/-- A cache as its callers share it. -/
structure Cache (α β : Type) [Ord α] where
  store : Store α β
  touches : Touches α
  /-- How many deadlines one section of a sweep takes at most. -/
  batch : Nat
  closed : Bool
  /-- The number of the sweeper that serves this cache, if one does. -/
  sweeper : Option Nat
  batch_pos : 0 < batch

/-- What a section leaves behind. -/
structure Turn (α β ρ : Type) [Ord α] where
  cache : Cache α β
  answer : ρ
  events : List (Event α)

/-- What the body of a write section makes of the store. -/
structure Change (α β ρ : Type) [Ord α] where
  store : Store α β
  answer : ρ
  events : List (Event α)

namespace Turn

variable {α β ρ σ : Type} [Ord α]

/-- The same turn with its answer put in other terms. -/
def map (f : ρ → σ) (t : Turn α β ρ) : Turn α β σ := ⟨t.cache, f t.answer, t.events⟩

end Turn

namespace Cache

variable {α β ρ : Type} [Ord α] [Std.TransOrd α]

/-- How many deadlines a section of a sweep takes where nothing else was asked for. -/
def defaultBatch : Nat := 1000

/-- An empty cache of at most `capacity` live entries, or of any number for zero. A batch of zero
counts as one. -/
def empty (capacity : Nat) (batch : Nat) : Cache α β where
  store := .empty capacity
  touches := .empty
  batch := max batch 1
  closed := false
  sweeper := none
  batch_pos := by omega

/-- The cache with its touches replayed and none pending. -/
def settle (c : Cache α β) : Cache α β :=
  if c.store.recency.isBounded then
    { c with store := c.store.touchAll c.touches.toList, touches := .empty }
  else c

/-- A write section that answers `refused` and does nothing once the cache is closed. -/
def writing (c : Cache α β) (refused : ρ) (body : Store α β → Change α β ρ) : Turn α β ρ :=
  if c.closed then ⟨c, refused, []⟩
  else
    let settled := c.settle
    let change := body settled.store
    ⟨{ settled with store := change.store }, change.answer, change.events⟩

/-- A read section that changes nothing. -/
def reading (c : Cache α β) (look : Store α β → ρ) : Turn α β ρ := ⟨c, look c.store, []⟩

/-- Leaves a touch of a key that was hit, if an order of use is kept and there is room. -/
def noteHit (c : Cache α β) (key : α) : Cache α β × List (Event α) :=
  if c.store.recency.isBounded then
    match c.touches.push? key with
    | some touches => ({ c with touches }, [])
    | none => (c, [.touchDropped key])
  else (c, [])

/-- The read section that counts: finds the live value of `key`, counts a hit or a miss, and
leaves a touch on a hit. -/
def lookup (c : Cache α β) (key : α) (now : Instant) : Turn α β (Option β) :=
  let found := (c.store.live? key now).map (·.value)
  let counted :=
    { c with store := { c.store with tally := c.store.tally.lookup found.isSome } }
  if found.isSome then
    let noted := counted.noteHit key
    ⟨noted.1, found, noted.2⟩
  else ⟨counted, found, []⟩

end Cache

end ExpiringCache
