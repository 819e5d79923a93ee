import ExpiringCache.Cache.Basic

/-!
# Operations in one section

The operations that are done in a single critical section, each as a function on `Cache`, and
`Operation` with `Cache.perform`, which makes one value of any of them, so that runs can be lists.

Rules that the operations share:

* a key is *live* if its entry is not expired at the reading of the clock;
* a plain write (`set`, `setAll`) of an absent value or with a negative lifetime deletes the key;
  a conditional write (`setIfAbsent`, `getOrSet`) never deletes and never replaces a live entry;
* `update` changes only the value, `setLifetime` only the deadline;
* once the cache is closed, reads find nothing and writes do nothing.
-/

namespace ExpiringCache

namespace Cache

variable {α β : Type} [Ord α] [Std.TransOrd α]

/-! ## Writes -/

/-- Stores or deletes one key. -/
def set (c : Cache α β) (key : α) (value : Option β) (lifetime : Lifetime) (now : Instant) :
    Turn α β Unit :=
  c.writing () fun s =>
    let done := s.put key value lifetime now
    ⟨done.2, (), Event.ofVictims done.1⟩

/-- Stores or deletes several keys one after the other, all at the same moment. -/
def setAll (c : Cache α β) (pairs : List (α × Option β)) (lifetime : Lifetime) (now : Instant) :
    Turn α β Unit :=
  c.writing () fun s =>
    let done := Store.putAll lifetime now pairs s
    ⟨done.2, (), done.1.flatMap Event.ofVictims⟩

/-- Stores a value unless the key is live; answers whether it did. -/
def setIfAbsent (c : Cache α β) (key : α) (value : Option β) (lifetime : Lifetime)
    (now : Instant) : Turn α β Bool :=
  c.writing false fun s =>
    if (s.live? key now).isSome then ⟨s, false, []⟩
    else
      let done := s.putNew key value lifetime now
      ⟨done.2, done.1.1.isSome, Event.ofVictims done.1.2⟩

/-- The live value of a key, or else the given value, which is stored. -/
def getOrSet (c : Cache α β) (key : α) (value : Option β) (lifetime : Lifetime)
    (now : Instant) : Turn α β (Option β) :=
  c.writing none fun s =>
    match s.live? key now with
    | some entry => ⟨{ s with tally := s.tally.hit }.touch key, some entry.value, []⟩
    | none =>
      let done := { s with tally := s.tally.miss }.putNew key value lifetime now
      ⟨done.2, done.1.1, Event.ofVictims done.1.2⟩

/-- Deletes keys one after the other; answers with the value of the last live one. -/
def remove (c : Cache α β) (keys : List α) (now : Instant) : Turn α β (Option β) :=
  c.writing none fun s =>
    let done := Store.removeAll now keys s
    ⟨done.2, done.1, []⟩

/-- Replaces the value of a live key, or deletes the key if the new value is absent; answers with
the old value and whether the key was live. -/
def update (c : Cache α β) (key : α) (value : Option β) (now : Instant) :
    Turn α β (Option β × Bool) :=
  c.writing (none, false) fun s =>
    match s.live? key now with
    | none => ⟨s, (none, false), []⟩
    | some entry =>
      let changed := match value with
        | some value => s.replaceValue key value
        | none => (s.remove key).2
      ⟨changed, (some entry.value, true), []⟩

/-- Gives a live key another lifetime, counted from now, or deletes it if the lifetime is negative;
answers with what was left of the old one. -/
def setLifetime (c : Cache α β) (key : α) (lifetime : Lifetime) (now : Instant) :
    Turn α β (Except Fault TimeLeft) :=
  c.writing (.ok .absent) fun s =>
    match s.live? key now with
    | none => ⟨s, .ok .absent, []⟩
    | some entry =>
      match entry.timeLeftAt now with
      | .error fault => ⟨s, .error fault, []⟩
      | .ok left =>
        let changed :=
          if lifetime.isStorable then s.setLifetime key lifetime now else (s.remove key).2
        ⟨changed, .ok left, []⟩

/-- Drops every entry and every pending touch, also of a closed cache. -/
def clear (c : Cache α β) : Turn α β Unit :=
  ⟨{ c with store := c.store.reset, touches := .empty }, (), [.cleared c.store.entries.size]⟩

/-- Marks the cache as closed and lets its sweeper go, before anything is dropped. -/
def shut (c : Cache α β) : Cache α β := { c with closed := true, sweeper := none }

/-- Closes the cache for good and drops what it holds. Closing it again does nothing. -/
def close (c : Cache α β) : Turn α β Unit :=
  if c.closed then ⟨c, (), []⟩
  else
    let cleared := c.shut.clear
    { cleared with events := cleared.events ++ [.closed] }

/-! ## Reads -/

/-- Whether the key is live. Counts nothing. -/
def contains (c : Cache α β) (key : α) (now : Instant) : Turn α β Bool :=
  c.reading fun s => (s.live? key now).isSome

/-- What is left of the key's lifetime. -/
def timeLeft (c : Cache α β) (key : α) (now : Instant) : Turn α β (Except Fault TimeLeft) :=
  c.reading fun s =>
    match s.live? key now with
    | none => .ok .absent
    | some entry => entry.timeLeftAt now

/-- How many entries are live. -/
def size (c : Cache α β) (now : Instant) : Turn α β Nat :=
  c.reading fun s => s.liveCount now

/-- The live keys with their values, in the order of the keys. -/
def pairs (c : Cache α β) (now : Instant) : Turn α β (List (α × β)) :=
  c.reading fun s => (s.liveEntries now).map fun pair => (pair.1, pair.2.value)

/-- The live keys in their order. -/
def keys (c : Cache α β) (now : Instant) : Turn α β (List α) :=
  c.reading fun s => (s.liveEntries now).map (·.1)

/-- The live values, in the order of their keys. -/
def values (c : Cache α β) (now : Instant) : Turn α β (List β) :=
  c.reading fun s => (s.liveEntries now).map (·.2.value)

/-- The counters and the number of live entries. -/
def statistics (c : Cache α β) (now : Instant) : Statistics :=
  ⟨c.store.tally, c.store.liveCount now⟩

end Cache

/-! ## Any of them -/

/-- An operation that one section does. -/
inductive Operation (α β : Type) where
  | set (key : α) (value : Option β) (lifetime : Lifetime)
  | setAll (pairs : List (α × Option β)) (lifetime : Lifetime)
  | setIfAbsent (key : α) (value : Option β) (lifetime : Lifetime)
  | get (key : α)
  | getOrSet (key : α) (value : Option β) (lifetime : Lifetime)
  | contains (key : α)
  | timeLeft (key : α)
  | remove (keys : List α)
  | update (key : α) (value : Option β)
  | setLifetime (key : α) (lifetime : Lifetime)
  | size
  | pairs
  | keys
  | values
  | clear
  | close
deriving DecidableEq

/-- What an operation answers. -/
inductive Answer (α β : Type) where
  | done
  | flag (yes : Bool)
  | value (found : Option β)
  | timeLeft (left : TimeLeft)
  | replaced (old : Option β) (existed : Bool)
  | count (n : Nat)
  | pairs (list : List (α × β))
  | keys (list : List α)
  | values (list : List β)
deriving DecidableEq

namespace Cache

variable {α β : Type} [Ord α] [Std.TransOrd α]

/-- Does one operation at one reading of the clock. -/
def perform (c : Cache α β) (op : Operation α β) (now : Instant) :
    Turn α β (Except Fault (Answer α β)) :=
  match op with
  | .set key value lifetime => (c.set key value lifetime now).map fun _ => .ok .done
  | .setAll pairs lifetime => (c.setAll pairs lifetime now).map fun _ => .ok .done
  | .setIfAbsent key value lifetime =>
    (c.setIfAbsent key value lifetime now).map (.ok ∘ .flag)
  | .get key => (c.lookup key now).map (.ok ∘ .value)
  | .getOrSet key value lifetime => (c.getOrSet key value lifetime now).map (.ok ∘ .value)
  | .contains key => (c.contains key now).map (.ok ∘ .flag)
  | .timeLeft key => (c.timeLeft key now).map (·.map .timeLeft)
  | .remove keys => (c.remove keys now).map (.ok ∘ .value)
  | .update key value => (c.update key value now).map fun old => .ok (.replaced old.1 old.2)
  | .setLifetime key lifetime => (c.setLifetime key lifetime now).map (·.map .timeLeft)
  | .size => (c.size now).map (.ok ∘ .count)
  | .pairs => (c.pairs now).map (.ok ∘ .pairs)
  | .keys => (c.keys now).map (.ok ∘ .keys)
  | .values => (c.values now).map (.ok ∘ .values)
  | .clear => c.clear.map fun _ => .ok .done
  | .close => c.close.map fun _ => .ok .done

end Cache

end ExpiringCache
