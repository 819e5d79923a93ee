import ExpiringCache.Time
import Std.Data.ExtTreeMap
import Std.Data.ExtTreeSet

/-!
# Deadlines

Which keys are over at which moment, so that what is due can be found without looking at every
entry. The index is a finite set of pairs of a key and a moment, kept as one bucket of keys per
moment and the number of pairs. Keys that never expire are not in it.

* `Deadlines.insert`, `Deadlines.erase`, `Deadlines.reschedule` change one key's pairs;
* `Deadlines.countDue` counts the pairs that are due;
* `Deadlines.takeDue` removes up to a number of due pairs, the oldest bucket first, and
  `Deadlines.takeBatches` does so until none is left.

Nothing decides which keys of one bucket go first: that is an `Arrangement`, and every one of them
is allowed.

Membership is the view of the index: `mem_insert` and `mem_erase` say what the two basic changes
do to it.
-/

namespace ExpiringCache

/-- An order in which the keys of each bucket are gone through. -/
structure Arrangement (α : Type) where
  arrange : Instant → List α → List α
  perm : ∀ t keys, (arrange t keys).Perm keys

/-- The keys as they are listed. -/
def Arrangement.asListed {α : Type} : Arrangement α := ⟨fun _ keys => keys, fun _ _ => .rfl⟩

/-- The index of deadlines. -/
structure Deadlines (α : Type) [Ord α] where
  /-- The keys of each moment that has any. -/
  buckets : Std.ExtTreeMap Instant (Std.ExtTreeSet α)
  /-- The number of pairs. -/
  count : Nat

namespace Deadlines

variable {α : Type} [Ord α] [Std.TransOrd α]

/-- No deadlines. -/
def empty : Deadlines α := ⟨∅, 0⟩

/-- The pair of `key` and `t` is in the index. -/
def Holds (d : Deadlines α) (key : α) (t : Instant) : Prop :=
  ∃ bucket, d.buckets[t]? = some bucket ∧ key ∈ bucket

/-- Notes that `key` is over at `t`. -/
def insert (d : Deadlines α) (key : α) (t : Instant) : Deadlines α :=
  let bucket := d.buckets[t]?.getD ∅
  if key ∈ bucket then d
  else ⟨d.buckets.insert t (bucket.insert key), d.count + 1⟩

/-- Forgets that `key` is over at `t`, and the bucket with it if it was the last key there. -/
def erase (d : Deadlines α) (key : α) (t : Instant) : Deadlines α :=
  match d.buckets[t]? with
  | none => d
  | some bucket =>
    if key ∈ bucket then
      let rest := bucket.erase key
      ⟨if rest.isEmpty then d.buckets.erase t else d.buckets.insert t rest, d.count - 1⟩
    else d

/-- Moves `key` from one moment to another, where `none` is never. -/
def reschedule (d : Deadlines α) (key : α) (old new : Option Instant) : Deadlines α :=
  if old = new then d
  else
    let d := old.elim d (d.erase key)
    new.elim d (d.insert key)

/-- The buckets that are due at `now`, the oldest first. -/
def dueBuckets (d : Deadlines α) (now : Instant) : List (Instant × Std.ExtTreeSet α) :=
  d.buckets.toList.takeWhile fun bucket => decide (bucket.1 ≤ now)

/-- How many pairs are due at `now`. -/
def countDue (d : Deadlines α) (now : Instant) : Nat :=
  (d.dueBuckets now).foldr (fun bucket n => bucket.2.size + n) 0

/-- The due pairs, the oldest bucket first and each bucket as arranged. -/
def due (d : Deadlines α) (order : Arrangement α) (now : Instant) : List (Instant × α) :=
  (d.dueBuckets now).flatMap fun bucket =>
    (order.arrange bucket.1 bucket.2.toList).map fun key => (bucket.1, key)

/-- Removes the first `limit` due pairs, all of them for `none`; answers with their keys. -/
def takeDue (d : Deadlines α) (order : Arrangement α) (now : Instant) (limit : Option Nat) :
    List α × Deadlines α :=
  let due := d.due order now
  let taken := limit.elim due due.take
  (taken.map (·.2), taken.foldl (fun d pair => d.erase pair.2 pair.1) d)

/-- Takes batches of up to `limit` due pairs, at most `fuel` of them, until one is empty; answers
with all batches, the empty one included. -/
def takeBatchesFor (order : Arrangement α) (now : Instant) (limit : Option Nat) :
    Nat → Deadlines α → List (List α) × Deadlines α
  | 0, d => ([], d)
  | fuel + 1, d =>
    let taken := d.takeDue order now limit
    if taken.1.isEmpty then ([[]], taken.2)
    else
      let rest := takeBatchesFor order now limit fuel taken.2
      (taken.1 :: rest.1, rest.2)

/-- Takes batches of up to `limit` due pairs until one is empty. -/
def takeBatches (d : Deadlines α) (order : Arrangement α) (now : Instant) (limit : Option Nat) :
    List (List α) × Deadlines α :=
  takeBatchesFor order now limit (d.countDue now + 1) d

/-! ## What the basic changes do to the pairs -/

theorem not_holds_empty (key : α) (t : Instant) : ¬ (empty : Deadlines α).Holds key t := by
  simp [Holds, empty]

theorem holds_insert [Std.LawfulEqOrd α] {d : Deadlines α} {key k : α} {t u : Instant} :
    (d.insert key t).Holds k u ↔ d.Holds k u ∨ k = key ∧ u = t := by
  simp only [insert, Holds]
  cases hb : d.buckets[t]? with
  | none =>
    by_cases hut : t = u
    · subst hut
      simp [hb]
      grind
    · simp [Std.ExtTreeMap.getElem?_insert, hut, Ne.symm hut]
  | some bucket =>
    by_cases hk : key ∈ bucket
    · simp [hk]
      grind
    · by_cases hut : t = u
      · subst hut
        simp [hb, hk]
        grind
      · simp [hk, Std.ExtTreeMap.getElem?_insert, hut, Ne.symm hut]

theorem holds_erase [Std.LawfulEqOrd α] {d : Deadlines α} {key k : α} {t u : Instant} :
    (d.erase key t).Holds k u ↔ d.Holds k u ∧ ¬ (k = key ∧ u = t) := by
  unfold erase
  cases hb : d.buckets[t]? with
  | none =>
    simp only [Holds]
    grind
  | some bucket =>
    by_cases hk : key ∈ bucket
    · by_cases hut : u = t
      · subst hut
        by_cases he : (bucket.erase key).isEmpty
        · -- the bucket held nothing but this key and is dropped
          have hnone : ∀ x, x ∈ bucket → x = key := by
            intro x hx
            have : x ∉ bucket.erase key := by
              rw [Std.ExtTreeSet.isEmpty_iff] at he
              simp [he]
            grind
          simp only [hk, if_true, he, Holds, hb, Option.some.injEq]
          simp
          grind
        · simp only [hk, if_true, he, Holds, hb]
          simp
          grind
      · simp only [hk, if_true, Holds]
        split <;> simp [Std.ExtTreeMap.getElem?_insert, Std.ExtTreeMap.getElem?_erase,
          Ne.symm hut, hut]
    · simp only [hk, if_false, Holds]
      grind

end Deadlines

end ExpiringCache
