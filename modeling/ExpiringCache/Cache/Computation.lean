import ExpiringCache.Cache.Operation

/-!
# Operations that compute a value on a miss

Three operations are given a loader instead of a value. They take several sections, with the
loader in between, and other callers may come in wherever a section ends:

* `Form.getOrSet` looks up the key, runs the loader with no lock held, and stores the result in a
  write section of its own: of several callers the last to store wins;
* `Form.getOrSetLocked` looks up the key, then takes the write lock, looks again, and keeps the
  lock while the loader runs and until its result is stored: of several callers one loads;
* `Form.setIfAbsent` does the same but answers only whether it stored something, and its first
  look counts nothing.

A `Call` moves from one `Phase` to the next by `Call.look`, `Call.enter` and `Call.conclude`. A
loader that fails, or that loads nothing to be stored, leaves the store as it is. `Call.run` is a
whole call, and `Call.finish` the part that one caller does without another coming between.
-/

namespace ExpiringCache

/-- The three operations that compute. -/
inductive Form where
  | setIfAbsent
  | getOrSet
  | getOrSetLocked
deriving DecidableEq, Repr

/-- The loader runs while the caller holds the write lock. -/
def Form.locks : Form → Bool
  | setIfAbsent | getOrSetLocked => true
  | getOrSet => false

/-- A caller's request: which operation, on which key, and the lifetime of what is stored. -/
structure Call (α : Type) where
  form : Form
  key : α
  lifetime : Lifetime
deriving DecidableEq

/-- How far a call has come. -/
inductive Phase (α β : Type) where
  /-- The first look found nothing; the call waits for the write lock. -/
  | waiting
  /-- The loader runs, under the write lock if the form says so. -/
  | loading
  /-- The call is over. -/
  | finished (result : Except Fault (Answer α β))

namespace Call

variable {α β : Type} [Ord α] [Std.TransOrd α]

/-- The first look, in a read section. -/
def look (call : Call α) (c : Cache α β) (now : Instant) : Turn α β (Phase α β) :=
  match call.form with
  | .setIfAbsent =>
    (c.contains call.key now).map fun live =>
      if live then .finished (.ok (.flag false)) else .waiting
  | .getOrSet =>
    (c.lookup call.key now).map fun found =>
      if found.isSome then .finished (.ok (.value found)) else .loading
  | .getOrSetLocked =>
    (c.lookup call.key now).map fun found =>
      if found.isSome then .finished (.ok (.value found)) else .waiting

/-- Takes the write lock and looks again: the section goes on with the loader, and keeps the lock,
unless the key has become live or the cache was closed. -/
def enter (call : Call α) (c : Cache α β) (now : Instant) : Turn α β (Phase α β) :=
  match call.form with
  | .setIfAbsent =>
    c.writing (.finished (.ok (.flag false))) fun s =>
      if (s.live? call.key now).isSome then ⟨s, .finished (.ok (.flag false)), []⟩
      else ⟨s, .loading, []⟩
  | .getOrSetLocked =>
    c.writing (.finished (.ok (.value none))) fun s =>
      match s.live? call.key now with
      | some entry => ⟨s.touch call.key, .finished (.ok (.value (some entry.value))), []⟩
      | none => ⟨s, .loading, []⟩
  | .getOrSet => ⟨c, .loading, []⟩

/-- Stores a loaded value inside the section that `enter` began, whatever happened to the cache's
mark of being closed since. -/
def storeLocked (call : Call α) (c : Cache α β) (value : Option β) (now : Instant) :
    Turn α β (Option β) :=
  let done := c.store.putNew call.key value call.lifetime now
  ⟨{ c with store := done.2 }, done.1.1, Event.ofVictims done.1.2⟩

/-- Stores a loaded value in a section of its own. -/
def storeUnlocked (call : Call α) (c : Cache α β) (value : Option β) (now : Instant) :
    Turn α β (Option β) :=
  match storable? value call.lifetime with
  | none => ⟨c, none, []⟩
  | some value =>
    c.writing none fun s =>
      let done := s.putNew call.key (some value) call.lifetime now
      ⟨done.2, done.1.1, Event.ofVictims done.1.2⟩

/-- What follows the loader: its fault is the answer, or its value is stored. -/
def conclude (call : Call α) (c : Cache α β) (outcome : Except Fault (Option β))
    (now : Instant) : Turn α β (Except Fault (Answer α β)) :=
  match outcome with
  | .error fault => ⟨c, .error fault, []⟩
  | .ok value =>
    match call.form with
    | .setIfAbsent => (call.storeLocked c value now).map fun stored => .ok (.flag stored.isSome)
    | .getOrSetLocked => (call.storeLocked c value now).map (.ok ∘ .value)
    | .getOrSet => (call.storeUnlocked c value now).map (.ok ∘ .value)

/-- The part of a call after a first look that found nothing: the call takes the write lock at
`now`, and loads and stores at `later` unless the key has become live or the cache was closed.
Answers also whether the loader ran. -/
def finish (call : Call α) (c : Cache α β) (outcome : Except Fault (Option β))
    (now later : Instant) : Turn α β (Except Fault (Answer α β) × Bool) :=
  let entered := call.enter c now
  match entered.answer with
  | .finished result => ⟨entered.cache, (result, false), entered.events⟩
  | .waiting | .loading =>
    let done := call.conclude entered.cache outcome later
    ⟨done.cache, (done.answer, true), entered.events ++ done.events⟩

/-- A whole call with nobody coming between its sections, which look at the clock one after the
other. Answers also whether the loader ran. -/
def run (call : Call α) (c : Cache α β) (outcome : Except Fault (Option β))
    (first second last : Instant) : Turn α β (Except Fault (Answer α β) × Bool) :=
  let looked := call.look c first
  match looked.answer with
  | .finished result => ⟨looked.cache, (result, false), looked.events⟩
  | .waiting | .loading =>
    let done := call.finish looked.cache outcome second last
    { done with events := looked.events ++ done.events }

end Call

end ExpiringCache
