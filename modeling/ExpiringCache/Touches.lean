/-!
# Pending touches

A lookup that hits does not reorder anything itself: it leaves a note of the key. The notes are
replayed, oldest first, when the store is next written. At most `Touches.limit` notes are kept;
while that many are pending, further hits leave no note.
-/

namespace ExpiringCache

/-- Keys that were hit since the last replay. -/
structure Touches (α : Type) where
  newestFirst : List α
  count : Nat
  count_eq : count = newestFirst.length

namespace Touches

variable {α : Type}

/-- How many notes may be pending. -/
def limit : Nat := 65536

/-- None pending. -/
def empty : Touches α := ⟨[], 0, rfl⟩

/-- The pending keys in the order they were hit. -/
def toList (t : Touches α) : List α := t.newestFirst.reverse

/-- One more hit, or `none` if there is no room for it. -/
def push? (t : Touches α) (key : α) : Option (Touches α) :=
  if t.count < limit then some ⟨key :: t.newestFirst, t.count + 1, by simp [t.count_eq]⟩
  else none

@[simp] theorem toList_empty : (empty : Touches α).toList = [] := rfl

theorem toList_of_push? {t u : Touches α} {key : α} (h : t.push? key = some u) :
    u.toList = t.toList ++ [key] := by
  unfold push? at h
  split at h
  · cases h
    simp [toList]
  · cases h

theorem push?_eq_none_iff {t : Touches α} {key : α} :
    t.push? key = none ↔ limit ≤ t.toList.length := by
  simp [push?, toList, t.count_eq]

end Touches

end ExpiringCache
