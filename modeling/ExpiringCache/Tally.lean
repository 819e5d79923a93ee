import ExpiringCache.Fault

/-!
# Tallies

Four counters of 64 bits that wrap around: lookups that found a live entry, lookups that did not,
entries evicted for want of room, and expired entries removed. `Tally.hitRate` is the share of
lookups that hit.
-/

namespace ExpiringCache

/-- The four counters. -/
@[ext]
structure Tally where
  hits : UInt64 := 0
  misses : UInt64 := 0
  evictions : UInt64 := 0
  expired : UInt64 := 0
deriving DecidableEq, Repr

namespace Tally

/-- One lookup that found a live entry. -/
def hit (t : Tally) : Tally := { t with hits := t.hits + 1 }

/-- One lookup that found none. -/
def miss (t : Tally) : Tally := { t with misses := t.misses + 1 }

/-- `n` entries evicted. -/
def evict (t : Tally) (n : Nat) : Tally := { t with evictions := t.evictions + UInt64.ofNat n }

/-- `n` expired entries removed. -/
def expire (t : Tally) (n : Nat) : Tally := { t with expired := t.expired + UInt64.ofNat n }

/-- One lookup, counted by whether it found something. -/
def lookup (t : Tally) (found : Bool) : Tally := if found then t.hit else t.miss

/-- Hits as a share of all lookups, `0` before the first; a fault if 64 bits cannot hold the
number of lookups. Both counts are rounded to floating point before the division. -/
def hitRate (t : Tally) : Except Fault Float :=
  if t.hits.toNat + t.misses.toNat < UInt64.size then
    let lookups := t.hits + t.misses
    .ok (if lookups = 0 then 0 else t.hits.toFloat / lookups.toFloat)
  else
    .error (.overflow .sum)

end Tally

/-- The counters beside the number of live entries at one moment. -/
structure Statistics where
  tally : Tally
  liveEntries : Nat
deriving DecidableEq, Repr

end ExpiringCache
