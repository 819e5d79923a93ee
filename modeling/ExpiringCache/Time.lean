/-!
# Moments and lifetimes

The two kinds of time that a cache with expiring entries handles:

* `Instant`: a reading of the wall clock, in whole milliseconds since the epoch, within 64 bits.
* `Lifetime`: how long an entry is to live, in nanoseconds and with a sign. The zero lifetime
  never ends; a negative one asks for the key to be deleted.

`Lifetime.deadline` joins them: the moment at which an entry written now is over. A nonzero
lifetime lasts at least one millisecond, and a deadline past the last moment is the last moment.
`TimeLeft` is what a caller learns about a key.
-/

namespace ExpiringCache

/-- A moment: milliseconds since the epoch, as a signed 64-bit clock counts them. -/
@[ext]
structure Instant where
  ms : Int
  lower : -9223372036854775808 ≤ ms
  upper : ms ≤ 9223372036854775807
deriving DecidableEq

namespace Instant

/-- The last moment the clock can show. -/
def latest : Instant := ⟨9223372036854775807, by decide, by decide⟩

/-- The moment nearest to `ms`: a count beyond either end of the range is that end. -/
def clamp (ms : Int) : Instant :=
  ⟨max (-9223372036854775808) (min ms 9223372036854775807), by omega, by omega⟩

/-- The clock moved by `ms` milliseconds, forward or backward. -/
def shift (t : Instant) (ms : Int) : Instant :=
  clamp (t.ms + ms)

/-- Milliseconds from `earlier` to `later`, if 64 bits can hold them. -/
def since? (later earlier : Instant) : Option Int :=
  let gap := later.ms - earlier.ms
  if -9223372036854775808 ≤ gap ∧ gap ≤ 9223372036854775807 then some gap else none

instance : LE Instant := ⟨fun s t => s.ms ≤ t.ms⟩

instance : LT Instant := ⟨fun s t => s.ms < t.ms⟩

instance (s t : Instant) : Decidable (s ≤ t) := inferInstanceAs (Decidable (s.ms ≤ t.ms))

instance (s t : Instant) : Decidable (s < t) := inferInstanceAs (Decidable (s.ms < t.ms))

instance : Ord Instant := ⟨fun s t => compare s.ms t.ms⟩

theorem le_def {s t : Instant} : s ≤ t ↔ s.ms ≤ t.ms := Iff.rfl

theorem lt_def {s t : Instant} : s < t ↔ s.ms < t.ms := Iff.rfl

theorem compare_def (s t : Instant) : compare s t = compare s.ms t.ms := rfl

instance : Std.TransOrd Instant where
  eq_swap {s t} := Std.OrientedOrd.eq_swap (a := s.ms) (b := t.ms)
  isLE_trans {s t u} hst htu := Std.TransOrd.isLE_trans (a := s.ms) (b := t.ms) (c := u.ms) hst htu

instance : Std.LawfulEqOrd Instant where
  eq_of_compare {s t} h := Instant.ext (Std.LawfulEqOrd.eq_of_compare (a := s.ms) (b := t.ms) h)

theorem le_refl (t : Instant) : t ≤ t := Int.le_refl t.ms

theorem le_trans {s t u : Instant} (hst : s ≤ t) (htu : t ≤ u) : s ≤ u := Int.le_trans hst htu

theorem le_latest (t : Instant) : t ≤ latest := t.upper

theorem clamp_ms (ms : Int) :
    (clamp ms).ms = max (-9223372036854775808) (min ms 9223372036854775807) := rfl

end Instant

/-- How long an entry is to live, in nanoseconds. -/
@[ext]
structure Lifetime where
  ns : Int
deriving DecidableEq

namespace Lifetime

/-- A lifetime in nanoseconds. -/
def ofNanos (n : Int) : Lifetime := ⟨n⟩

/-- A lifetime in microseconds. -/
def ofMicros (n : Int) : Lifetime := ⟨n * 1000⟩

/-- A lifetime in milliseconds. -/
def ofMillis (n : Int) : Lifetime := ⟨n * 1000000⟩

/-- A lifetime in seconds. -/
def ofSeconds (n : Int) : Lifetime := ⟨n * 1000000000⟩

/-- The lifetime that never ends. -/
def forever : Lifetime := ⟨0⟩

/-- Whole milliseconds, cut toward zero. -/
def wholeMillis (l : Lifetime) : Int := l.ns.tdiv 1000000

/-- A lifetime that an entry may be stored with: any but a negative one. -/
def isStorable (l : Lifetime) : Bool := decide (0 ≤ l.ns)

/-- When an entry written at `now` is over: never for the zero lifetime, else `wholeMillis` later,
but at least one millisecond later, and no later than the last moment. -/
def deadline (l : Lifetime) (now : Instant) : Option Instant :=
  if l.ns = 0 then none else some (Instant.clamp (now.ms + max 1 l.wholeMillis))

theorem deadline_forever (now : Instant) : forever.deadline now = none := rfl

theorem deadline_eq_none_iff {l : Lifetime} {now : Instant} : l.deadline now = none ↔ l.ns = 0 := by
  unfold deadline
  split
  case isTrue h => exact iff_of_true rfl h
  case isFalse h => exact iff_of_false nofun h

/-- One millisecond later there is still a moment, so no deadline is moved to the first one that the
clock can show. -/
theorem exists_deadline {l : Lifetime} (h : l.ns ≠ 0) (now : Instant) :
    ∃ t, l.deadline now = some t ∧
      t.ms = min 9223372036854775807 (now.ms + max 1 l.wholeMillis) := by
  refine ⟨_, if_neg h, ?_⟩
  have := now.lower
  rw [Instant.clamp_ms]
  omega

/-- A deadline is always ahead, unless the clock can show no later moment. -/
theorem lt_deadline {l : Lifetime} {now t : Instant} (hnow : now < .latest)
    (h : l.deadline now = some t) : now < t := by
  unfold deadline at h
  split at h
  · cases h
  · cases h
    rw [Instant.lt_def] at hnow ⊢
    have := now.lower
    simp only [Instant.latest] at hnow
    rw [Instant.clamp_ms]
    omega

end Lifetime

/-- What remains of a key's lifetime. -/
inductive TimeLeft where
  /-- The key holds no live entry. -/
  | absent
  /-- The key holds an entry that never expires. -/
  | unlimited
  /-- The entry has this many milliseconds left. -/
  | millis (n : Nat)
deriving DecidableEq, Repr

/-- One number for all three cases: `-1` for an absent key, `0` for an entry that never expires. -/
def TimeLeft.toMillis : TimeLeft → Int
  | absent => -1
  | unlimited => 0
  | millis n => n

end ExpiringCache
