import ExpiringCache.Proofs.Contents
import ExpiringCache.Proofs.Errands

/-!
# A plain timed map

What a cache without a bound is meant to be, with no index at all: one finite map from keys to
values with an optional expiry. A row is live while its expiry lies ahead.

* A plain write of an absent value or with a negative lifetime deletes, a conditional one does
  nothing;
* a sweep deletes the rows that are not live;
* a closed map ignores writes.

Nothing here can fail but a loader.
-/

namespace ExpiringCache

namespace Rows

variable {α β : Type} [Ord α] [Std.TransOrd α]

/-- What remains of a row's lifetime. -/
def timeLeft (row : β × Option Instant) (now : Instant) : TimeLeft :=
  match row.2 with
  | none => .unlimited
  | some expiry => .millis (expiry.ms - now.ms).toNat

/-- The plain write. -/
def set (rows : Rows α β) (key : α) (value : Option β) (lifetime : Lifetime) (now : Instant) :
    Rows α β :=
  match value with
  | some value =>
    if 0 ≤ lifetime.ns then rows.insert key (value, lifetime.deadline now) else rows.erase key
  | none => rows.erase key

/-- The conditional write; answers with the value stored. -/
def add (rows : Rows α β) (key : α) (value : Option β) (lifetime : Lifetime) (now : Instant) :
    Option β × Rows α β :=
  match value with
  | some value =>
    if 0 ≤ lifetime.ns then (some value, rows.insert key (value, lifetime.deadline now))
    else (none, rows)
  | none => (none, rows)

/-- Deletes one key. Its value, if it was live, takes the place of the one found last. -/
def removeOne (now : Instant) (found : Option β × Rows α β) (key : α) : Option β × Rows α β :=
  (((found.2.live? key now).map (·.1)).or found.1, found.2.erase key)

/-- Deletes keys one after the other; answers with the value of the last one that was live. -/
def remove (rows : Rows α β) (keys : List α) (now : Instant) : Option β × Rows α β :=
  keys.foldl (removeOne now) (none, rows)

end Rows

/-- A map of rows, open or closed. -/
structure TimedMap (α β : Type) [Ord α] where
  rows : Rows α β
  closed : Bool

namespace TimedMap

variable {α β ρ : Type} [Ord α] [Std.TransOrd α]

/-- An open map without rows. -/
def empty : TimedMap α β := ⟨∅, false⟩

/-- A write, which a closed map ignores and refuses. -/
def write (m : TimedMap α β) (refused : ρ) (change : Rows α β → ρ × Rows α β) :
    ρ × TimedMap α β :=
  if m.closed then (refused, m)
  else
    let done := change m.rows
    (done.1, { m with rows := done.2 })

/-- Does one operation. -/
def perform (m : TimedMap α β) (op : Operation α β) (now : Instant) :
    Answer α β × TimedMap α β :=
  match op with
  | .set key value lifetime => m.write .done fun rows => (.done, rows.set key value lifetime now)
  | .setAll pairs lifetime =>
    m.write .done fun rows =>
      (.done, pairs.foldl (fun rows pair => rows.set pair.1 pair.2 lifetime now) rows)
  | .setIfAbsent key value lifetime =>
    m.write (.flag false) fun rows =>
      match rows.live? key now with
      | some _ => (.flag false, rows)
      | none =>
        let added := rows.add key value lifetime now
        (.flag added.1.isSome, added.2)
  | .get key => (.value ((m.rows.live? key now).map (·.1)), m)
  | .getOrSet key value lifetime =>
    m.write (.value none) fun rows =>
      match rows.live? key now with
      | some row => (.value (some row.1), rows)
      | none =>
        let added := rows.add key value lifetime now
        (.value added.1, added.2)
  | .contains key => (.flag (m.rows.live? key now).isSome, m)
  | .timeLeft key => (.timeLeft ((m.rows.live? key now).elim .absent (Rows.timeLeft · now)), m)
  | .remove keys =>
    m.write (.value none) fun rows =>
      let removed := rows.remove keys now
      (.value removed.1, removed.2)
  | .update key value =>
    m.write (.replaced none false) fun rows =>
      match rows.live? key now with
      | none => (.replaced none false, rows)
      | some row =>
        (.replaced (some row.1) true,
          value.elim (rows.erase key) fun value => rows.insert key (value, row.2))
  | .setLifetime key lifetime =>
    m.write (.timeLeft .absent) fun rows =>
      match rows.live? key now with
      | none => (.timeLeft .absent, rows)
      | some row =>
        (.timeLeft (Rows.timeLeft row now),
          if 0 ≤ lifetime.ns then rows.insert key (row.1, lifetime.deadline now)
          else rows.erase key)
  | .size => (.count (m.rows.live now).length, m)
  | .pairs => (.pairs ((m.rows.live now).map fun row => (row.1, row.2.1)), m)
  | .keys => (.keys ((m.rows.live now).map (·.1)), m)
  | .values => (.values ((m.rows.live now).map (·.2.1)), m)
  | .clear => (.done, { m with rows := ∅ })
  | .close => (.done, if m.closed then m else ⟨∅, true⟩)

/-- The first part of a computing call. -/
def look (m : TimedMap α β) (call : Call α) (now : Instant) : Phase α β :=
  match call.form, m.rows.live? call.key now with
  | .setIfAbsent, some _ => .finished (.ok (.flag false))
  | .getOrSet, some row | .getOrSetLocked, some row => .finished (.ok (.value (some row.1)))
  | .setIfAbsent, none | .getOrSetLocked, none => .waiting
  | .getOrSet, none => .loading

/-- The rest of a computing call: its result, and whether the loader ran. -/
def finish (m : TimedMap α β) (call : Call α) (outcome : Except Fault (Option β))
    (now later : Instant) : (Except Fault (Answer α β) × Bool) × TimedMap α β :=
  match call.form with
  | .setIfAbsent =>
    m.write (.ok (.flag false), false) fun rows =>
      match rows.live? call.key now, outcome with
      | some _, _ => ((.ok (.flag false), false), rows)
      | none, .error fault => ((.error fault, true), rows)
      | none, .ok value =>
        let added := rows.add call.key value call.lifetime later
        ((.ok (.flag added.1.isSome), true), added.2)
  | .getOrSetLocked =>
    m.write (.ok (.value none), false) fun rows =>
      match rows.live? call.key now, outcome with
      | some row, _ => ((.ok (.value (some row.1)), false), rows)
      | none, .error fault => ((.error fault, true), rows)
      | none, .ok value =>
        let added := rows.add call.key value call.lifetime later
        ((.ok (.value added.1), true), added.2)
  | .getOrSet =>
    match outcome with
    | .error fault => ((.error fault, true), m)
    | .ok value =>
      m.write (.ok (.value none), true) fun rows =>
        let added := rows.add call.key value call.lifetime later
        ((.ok (.value added.1), true), added.2)

/-- Carries an errand out. -/
def carry (m : TimedMap α β) : Errand α β → Report α β × TimedMap α β
  | .perform op now =>
    let done := m.perform op now
    (.answered (.ok done.1), done.2)
  | .compute call outcome first second last =>
    match m.look call first with
    | .finished result => (.computed result false, m)
    | .waiting | .loading =>
      let done := m.finish call outcome second last
      (.computed done.1.1 done.1.2, done.2)
  | .look call now => (.looked (m.look call now), m)
  | .finish call outcome now later =>
    let done := m.finish call outcome now later
    (.computed done.1.1 done.1.2, done.2)
  | .sweep _ now =>
    (.swept, if m.closed then m else { m with rows := m.rows.filter fun _ => Rows.isLive now })

/-- Carries errands out one after the other; tells what is told of each, and the rows after it. -/
def trace : TimedMap α β → List (Errand α β) → List (Report α β × Rows α β)
  | _, [] => []
  | m, errand :: errands =>
    let done := m.carry errand
    (done.1, done.2.rows) :: trace done.2 errands

end TimedMap

end ExpiringCache
