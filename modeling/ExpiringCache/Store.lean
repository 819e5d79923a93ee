import ExpiringCache.Deadlines
import ExpiringCache.Entry
import ExpiringCache.Recency
import ExpiringCache.Tally

/-!
# The store

What one lock guards: the stored entries, the index of their deadlines, their order of use and the
counters. The index holds exactly the deadlines of the stored entries, and the order of use holds
exactly their positions; every operation below changes the three together.

* `Store.live?` and `Store.liveCount` look at the entries that are not expired;
* `Store.put` and `Store.putNew` write, `Store.remove` deletes, `Store.touch` moves a key to the
  end of the order of use;
* `Store.replaceValue` and `Store.setLifetime` change one thing about an entry;
* `Store.purgeDue` removes expired entries;
* `Store.insert` keeps the number of entries within the capacity: it removes expired entries
  first, then those unused for the longest time.
-/

namespace ExpiringCache

/-- The state that one lock guards. -/
structure Store (α β : Type) [Ord α] where
  entries : Std.ExtTreeMap α (Entry β)
  deadlines : Deadlines α
  recency : Recency α
  tally : Tally

/-- What a write may store: a value that is present, with a lifetime that is not negative. -/
def storable? {β : Type} (value : Option β) (lifetime : Lifetime) : Option β :=
  if lifetime.isStorable then value else none

theorem storable?_eq_some_iff {β : Type} {value : Option β} {lifetime : Lifetime} {v : β} :
    storable? value lifetime = some v ↔ lifetime.isStorable = true ∧ value = some v := by
  by_cases h : lifetime.isStorable = true <;> simp [storable?, h]

namespace Store

variable {α β : Type} [Ord α] [Std.TransOrd α]

/-- A store of at most `capacity` live entries, or of any number for zero. -/
def empty (capacity : Nat) : Store α β := ⟨∅, .empty, .empty capacity, {}⟩

/-! ## Reading -/

/-- The entry that answers for `key` at `now`. -/
def live? (s : Store α β) (key : α) (now : Instant) : Option (Entry β) :=
  s.entries[key]?.filter (·.isLiveAt now)

/-- The number of entries that are not expired: all of them but those that are due. -/
def liveCount (s : Store α β) (now : Instant) : Nat :=
  s.entries.size - s.deadlines.countDue now

/-- The entries that are not expired, in the order of their keys. -/
def liveEntries (s : Store α β) (now : Instant) : List (α × Entry β) :=
  s.entries.toList.filter (·.2.isLiveAt now)

/-! ## Removing and touching -/

/-- Deletes `key`, expired or not; answers with its entry. -/
def remove (s : Store α β) (key : α) : Option (Entry β) × Store α β :=
  match s.entries[key]? with
  | none => (none, s)
  | some entry =>
    (some entry,
      { s with
        entries := s.entries.erase key
        deadlines := entry.deadline.elim s.deadlines (s.deadlines.erase key)
        recency := entry.position.elim s.recency fun position => (s.recency.remove position).2 })

/-- Deletes keys one after the other; answers with the value of the last one that was live. -/
def removeAll (now : Instant) : List α → Store α β → Option β × Store α β
  | [], s => (none, s)
  | key :: keys, s =>
    let one := s.remove key
    let rest := removeAll now keys one.2
    (rest.1 <|> (one.1.filter (·.isLiveAt now)).map (·.value), rest.2)

/-- Makes `key` the last one used, if it is stored and an order of use is kept. -/
def touch (s : Store α β) (key : α) : Store α β :=
  if s.recency.isBounded then
    match s.entries[key]? with
    | none => s
    | some entry =>
      let moved := s.recency.touch key entry.position
      { s with
        entries := s.entries.insert key { entry with position := some moved.1 }
        recency := moved.2 }
  else s

/-- Replays touches, the oldest first. -/
def touchAll (s : Store α β) (keys : List α) : Store α β := keys.foldl touch s

/-- Gives the entry of `key` another value and makes it the last one used. -/
def replaceValue (s : Store α β) (key : α) (value : β) : Store α β :=
  match s.entries[key]? with
  | none => s
  | some entry => { s with entries := s.entries.insert key { entry with value } }.touch key

/-- Gives a live entry another lifetime, counted from now. -/
def setLifetime (s : Store α β) (key : α) (lifetime : Lifetime) (now : Instant) : Store α β :=
  match s.live? key now with
  | none => s
  | some entry =>
    let deadline := lifetime.deadline now
    { s with
      entries := s.entries.insert key { entry with deadline }
      deadlines := s.deadlines.reschedule key entry.deadline deadline }

/-! ## Expired entries -/

/-- Removes the entry of a key that was just taken from the deadlines, if it is there and expired,
and counts it. -/
def dropExpired (now : Instant) (s : Store α β) (key : α) : Store α β :=
  match s.entries[key]? with
  | none => s
  | some entry =>
    if entry.isExpiredAt now then
      { s with
        entries := s.entries.erase key
        recency := entry.position.elim s.recency fun position => (s.recency.remove position).2
        tally := s.tally.expire 1 }
    else s

/-- Removes up to `limit` expired entries, all of them for `none`; answers with the number of
deadlines taken. -/
def purgeDue (s : Store α β) (order : Arrangement α) (now : Instant) (limit : Option Nat) :
    Nat × Store α β :=
  let taken := s.deadlines.takeDue order now limit
  (taken.1.length, taken.1.foldl (dropExpired now) { s with deadlines := taken.2 })

/-! ## Inserting -/

/-- The number of entries is within the capacity, if there is one. -/
def fits (s : Store α β) : Bool :=
  !s.recency.isBounded || decide (s.entries.size ≤ s.recency.capacity)

/-- Removes the entries unused for the longest time until the rest fits, at most `fuel` positions
of the order of use; answers with the removed keys. -/
def evictDown : Nat → Store α β → List α × Store α β
  | 0, s => ([], s)
  | fuel + 1, s =>
    if s.fits then ([], s)
    else
      match s.recency.evictOldest? with
      | none => ([], s)
      | some (key, recency) =>
        match s.entries[key]? with
        | none => evictDown fuel { s with recency }
        | some entry =>
          let rest := evictDown fuel
            { s with
              entries := s.entries.erase key
              deadlines := entry.deadline.elim s.deadlines (s.deadlines.erase key)
              recency }
          (key :: rest.1, rest.2)

/-- Makes the entries fit the capacity: expired ones go first and are not evictions, then the ones
unused for the longest time. Answers with the evicted keys. -/
def evictOverflow (s : Store α β) (now : Instant) : List α × Store α β :=
  if s.fits then ([], s)
  else
    let purged := (s.purgeDue .asListed now none).2
    let evicted := evictDown purged.recency.size purged
    (evicted.1, { evicted.2 with tally := evicted.2.tally.evict evicted.1.length })

/-- Writes an entry, in place of any that the key had, as the last one used. -/
def write (s : Store α β) (key : α) (value : β) (lifetime : Lifetime) (now : Instant) :
    Store α β :=
  let old := s.entries[key]?
  let entry := Entry.fresh value lifetime now
  let deadlines := s.deadlines.reschedule key (old.bind (·.deadline)) entry.deadline
  if s.recency.isBounded then
    let moved := s.recency.touch key (old.bind (·.position))
    { s with
      entries := s.entries.insert key { entry with position := some moved.1 }
      deadlines
      recency := moved.2 }
  else
    { s with entries := s.entries.insert key entry, deadlines }

/-- Writes an entry and makes room for it; answers with the evicted keys. -/
def insert (s : Store α β) (key : α) (value : β) (lifetime : Lifetime) (now : Instant) :
    List α × Store α β :=
  (s.write key value lifetime now).evictOverflow now

/-- The plain write: stores what may be stored and deletes `key` otherwise. Answers with the
evicted keys. -/
def put (s : Store α β) (key : α) (value : Option β) (lifetime : Lifetime) (now : Instant) :
    List α × Store α β :=
  match storable? value lifetime with
  | some value => s.insert key value lifetime now
  | none => ([], (s.remove key).2)

/-- Plain writes one after the other, all at the same moment; answers with the keys that each of
them evicted. -/
def putAll (lifetime : Lifetime) (now : Instant) :
    List (α × Option β) → Store α β → List (List α) × Store α β
  | [], s => ([], s)
  | (key, value) :: pairs, s =>
    let one := s.put key value lifetime now
    let rest := putAll lifetime now pairs one.2
    (one.1 :: rest.1, rest.2)

/-- The write of the conditional operations: stores what may be stored and never deletes. Answers
with the value stored and the evicted keys. -/
def putNew (s : Store α β) (key : α) (value : Option β) (lifetime : Lifetime) (now : Instant) :
    (Option β × List α) × Store α β :=
  match storable? value lifetime with
  | some value =>
    let inserted := s.insert key value lifetime now
    ((some value, inserted.1), inserted.2)
  | none => ((none, []), s)

/-- Everything dropped but the capacity and the counters. -/
def reset (s : Store α β) : Store α β :=
  { s with entries := ∅, deadlines := .empty, recency := .empty s.recency.capacity }

end Store

end ExpiringCache
