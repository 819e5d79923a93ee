import Std.Data.ExtTreeMap

/-!
# Order of use

The order in which keys were last used. Every use hands out the next position, `0, 1, 2, …`, and
whoever uses a key gives back the position that the key had; the smallest position still tracked
is that of the key unused for the longest time. A capacity of zero means that no bound is kept.

The order itself does not check that a position given back belongs to the key: positions are
dropped as told, and a key may stand at two of them.

Positions are natural numbers, without a bound. A counter of 64 bits hands out the same ones for
the first `2 ^ 64` uses; what it does after these is not modelled.
-/

namespace ExpiringCache

/-- Keys in the order of their last use. -/
@[ext]
structure Recency (α : Type) where
  /-- How many keys there may be; zero for any number. -/
  capacity : Nat
  /-- The tracked positions and their keys. -/
  order : Std.ExtTreeMap Nat α
  /-- The position handed out next. It has no bound. -/
  next : Nat

namespace Recency

variable {α : Type}

/-- Nothing used yet. -/
def empty (capacity : Nat) : Recency α := ⟨capacity, ∅, 0⟩

/-- A bound is kept. -/
def isBounded (r : Recency α) : Bool := decide (0 < r.capacity)

/-- How many positions are tracked. -/
def size (r : Recency α) : Nat := r.order.size

/-- Puts `key` last in the order, in place of whatever stands at `current`; answers with its
position. -/
def touch (r : Recency α) (key : α) (current : Option Nat) : Nat × Recency α :=
  let rest := current.elim r.order r.order.erase
  (r.next, { r with order := rest.insert r.next key, next := r.next + 1 })

/-- Stops tracking a position; answers with the key that stood there. -/
def remove (r : Recency α) (position : Nat) : Option α × Recency α :=
  (r.order[position]?, { r with order := r.order.erase position })

/-- The smallest tracked position and its key. -/
def first? (r : Recency α) : Option (Nat × α) :=
  r.order.minKey?.bind fun position => r.order[position]?.map fun key => (position, key)

/-- The key unused for the longest time. -/
def oldest? (r : Recency α) : Option α := r.first?.map (·.2)

/-- Removes the key unused for the longest time. -/
def evictOldest? (r : Recency α) : Option (α × Recency α) :=
  r.first?.map fun oldest => (oldest.2, { r with order := r.order.erase oldest.1 })

/-- The tracked keys, the longest unused first. -/
def toList (r : Recency α) : List α := r.order.toList.map (·.2)

/-! ## What stands where -/

theorem getElem?_order_touch {r : Recency α} {key : α} {current : Option Nat} {p : Nat} :
    (r.touch key current).2.order[p]? =
      if p = r.next then some key else if current = some p then none else r.order[p]? := by
  cases current with
  | none => grind [touch]
  | some q => grind [touch]

theorem getElem?_order_remove {r : Recency α} {p q : Nat} :
    (r.remove p).2.order[q]? = if q = p then none else r.order[q]? := by
  grind [remove]

theorem first?_eq_some_iff {r : Recency α} {p : Nat} {key : α} :
    r.first? = some (p, key) ↔ r.order[p]? = some key ∧ ∀ q ∈ r.order, p ≤ q := by
  have hmin : r.order.minKey? = some p ↔ p ∈ r.order ∧ ∀ q ∈ r.order, p ≤ q := by
    simp [Std.ExtTreeMap.minKey?_eq_some_iff_mem_and_forall, Nat.isLE_compare]
  constructor
  · intro h
    simp only [first?, Option.bind_eq_some_iff, Option.map_eq_some_iff, Prod.mk.injEq] at h
    obtain ⟨q, hq, k, hk, rfl, rfl⟩ := h
    exact ⟨hk, (hmin.mp hq).2⟩
  · rintro ⟨hk, hle⟩
    have hp : p ∈ r.order := by simp [Std.ExtTreeMap.mem_iff_isSome_getElem?, hk]
    simp [first?, hmin.mpr ⟨hp, hle⟩, hk]

theorem first?_eq_none_iff {r : Recency α} : r.first? = none ↔ r.order = ∅ := by
  constructor
  · intro h
    cases hm : r.order.minKey? with
    | none => simpa using hm
    | some p =>
      have hp := (Std.ExtTreeMap.minKey?_eq_some_iff_mem_and_forall.mp hm).1
      rw [Std.ExtTreeMap.mem_iff_isSome_getElem?, Option.isSome_iff_exists] at hp
      obtain ⟨key, hk⟩ := hp
      simp [first?, hm, hk] at h
  · intro h
    simp [first?, h]

end Recency

end ExpiringCache
