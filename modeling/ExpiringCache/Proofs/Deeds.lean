import ExpiringCache.Proofs.Eviction

/-!
# What is done to a store

Operations change the store by a handful of deeds: they count a lookup, touch, insert, remove,
replace a value, extend a lifetime, purge or reset. With the deeds as data, what every operation
keeps is shown once for each deed.

1. **Deeds** (`Deed`, `Store.after`): the compound writes of the store are deeds one after the other
   (`put_snd`, `putAll_snd`, `putNew_snd`, `removeAll_snd`, `touchAll_eq_afterAll`).
2. **Consistency** (`Store.Consistent`): the indices fit the entries and the entries fit the
   capacity. Every deed keeps it (`Consistent.after`).
3. **Inserting** (`Consistent.insert`): in a consistent store an insert makes room for itself.
-/

namespace ExpiringCache

/-- One change to a store. -/
inductive Deed (α β : Type) where
  /-- A lookup that found nothing live. -/
  | miss
  /-- A lookup that found `key` live. -/
  | hit (key : α)
  /-- A use of `key` that is not counted as a lookup. -/
  | touch (key : α)
  | insert (key : α) (value : β) (lifetime : Lifetime) (now : Instant)
  | remove (key : α)
  | replace (key : α) (value : β)
  | extend (key : α) (lifetime : Lifetime) (now : Instant)
  /-- Removes up to `limit` expired entries. -/
  | purge (order : Arrangement α) (now : Instant) (limit : Nat)
  | reset

namespace Deed

variable {α β : Type}

/-- The deed of a plain write. -/
def put (key : α) (value : Option β) (lifetime : Lifetime) (now : Instant) : Deed α β :=
  match storable? value lifetime with
  | some value => .insert key value lifetime now
  | none => .remove key

/-- The deeds of a conditional write to a key that is not live. -/
def putNew (key : α) (value : Option β) (lifetime : Lifetime) (now : Instant) :
    List (Deed α β) :=
  match storable? value lifetime with
  | some value => [.insert key value lifetime now]
  | none => []

/-- A deed that looks at the clock does so at `now`. -/
def HappensAt (now : Instant) : Deed α β → Prop
  | .insert _ _ _ t | .extend _ _ t | .purge _ t _ => t = now
  | .miss | .hit _ | .touch _ | .remove _ | .replace _ _ | .reset => True

theorem happensAt_put (key : α) (value : Option β) (lifetime : Lifetime) (now : Instant) :
    (put key value lifetime now).HappensAt now := by
  unfold put
  split
  · rfl
  · trivial

theorem happensAt_putNew {key : α} {value : Option β} {lifetime : Lifetime} {now : Instant}
    {deed : Deed α β} (h : deed ∈ putNew key value lifetime now) : deed.HappensAt now := by
  unfold putNew at h
  split at h
  · rw [List.mem_singleton.mp h]
    rfl
  · cases h

end Deed

namespace Store

variable {α β : Type} [Ord α] [Std.TransOrd α]

/-- The store after a deed. -/
def after (s : Store α β) : Deed α β → Store α β
  | .miss => { s with tally := s.tally.miss }
  | .hit key => { s with tally := s.tally.hit }.touch key
  | .touch key => s.touch key
  | .insert key value lifetime now => (s.insert key value lifetime now).2
  | .remove key => (s.remove key).2
  | .replace key value => s.replaceValue key value
  | .extend key lifetime now => s.setLifetime key lifetime now
  | .purge order now limit => (s.purgeDue order now (some limit)).2
  | .reset => s.reset

/-- The store after several deeds. -/
def afterAll (s : Store α β) (deeds : List (Deed α β)) : Store α β := deeds.foldl after s

@[simp] theorem afterAll_nil (s : Store α β) : s.afterAll [] = s := rfl

@[simp] theorem afterAll_cons (s : Store α β) (deed : Deed α β) (deeds : List (Deed α β)) :
    s.afterAll (deed :: deeds) = (s.after deed).afterAll deeds := rfl

theorem afterAll_append (s : Store α β) (deeds more : List (Deed α β)) :
    s.afterAll (deeds ++ more) = (s.afterAll deeds).afterAll more := List.foldl_append

/-! ## Compound writes -/

theorem put_snd (s : Store α β) (key : α) (value : Option β) (lifetime : Lifetime)
    (now : Instant) : (s.put key value lifetime now).2 = s.after (.put key value lifetime now) := by
  cases h : storable? value lifetime <;> simp [put, Deed.put, h, after]

theorem putAll_snd (lifetime : Lifetime) (now : Instant) (pairs : List (α × Option β))
    (s : Store α β) :
    (putAll lifetime now pairs s).2 =
      s.afterAll (pairs.map fun pair => .put pair.1 pair.2 lifetime now) := by
  induction pairs generalizing s with
  | nil => rfl
  | cons pair pairs ih =>
    rw [putAll, ih, put_snd]
    rfl

theorem putNew_snd (s : Store α β) (key : α) (value : Option β) (lifetime : Lifetime)
    (now : Instant) :
    (s.putNew key value lifetime now).2 = s.afterAll (Deed.putNew key value lifetime now) := by
  cases h : storable? value lifetime <;> simp [putNew, Deed.putNew, h, after]

theorem removeAll_snd (now : Instant) (keys : List α) (s : Store α β) :
    (removeAll now keys s).2 = s.afterAll (keys.map .remove) := by
  induction keys generalizing s with
  | nil => rfl
  | cons key keys ih =>
    rw [removeAll, ih]
    rfl

theorem touchAll_eq_afterAll (s : Store α β) (keys : List α) :
    s.touchAll keys = s.afterAll (keys.map .touch) := by
  rw [touchAll, afterAll, List.foldl_map]
  rfl

/-! ## Consistency -/

/-- The indices fit the entries, and the entries fit the capacity. -/
structure Consistent (s : Store α β) : Prop where
  indexed : s.Indexed
  fits : s.fits = true

variable {s t : Store α β}

omit [Std.TransOrd α] in
theorem fits_of_size_le (h : s.fits = true)
    (hcap : t.recency.capacity = s.recency.capacity) (hsize : t.entries.size ≤ s.entries.size) :
    t.fits = true := by
  rw [fits_iff] at h ⊢
  omega

theorem consistent_empty (capacity : Nat) : (empty capacity : Store α β).Consistent where
  indexed := indexed_empty capacity
  fits := fits_iff.mpr (.inr (by simp [empty]))

/-- Another tally makes no difference. -/
theorem Consistent.tallied (h : s.Consistent) (tally : Tally) : { s with tally }.Consistent :=
  ⟨h.indexed.tallied tally, h.fits⟩

theorem Consistent.reset (h : s.Consistent) : s.reset.Consistent where
  indexed := .reset s
  fits := fits_of_size_le h.fits rfl (by simp [Store.reset])

variable [Std.LawfulEqOrd α]

theorem Consistent.touch (h : s.Consistent) (key : α) : (s.touch key).Consistent where
  indexed := h.indexed.touch key
  fits := fits_of_size_le h.fits capacity_touch (Nat.le_of_eq size_touch)

theorem Consistent.remove (h : s.Consistent) (key : α) : (s.remove key).2.Consistent where
  indexed := h.indexed.remove key
  fits := by
    refine fits_of_size_le h.fits capacity_remove ?_
    cases he : s.entries[key]? with
    | none => simp [Store.remove, he]
    | some e =>
      rw [size_remove he]
      exact Nat.sub_le _ _

theorem Consistent.replaceValue (h : s.Consistent) (key : α) (value : β) :
    (s.replaceValue key value).Consistent where
  indexed := h.indexed.replaceValue key value
  fits := fits_of_size_le h.fits capacity_replaceValue (Nat.le_of_eq size_replaceValue)

theorem Consistent.setLifetime (h : s.Consistent) (key : α) (lifetime : Lifetime)
    (now : Instant) : (s.setLifetime key lifetime now).Consistent where
  indexed := h.indexed.setLifetime key lifetime now
  fits := fits_of_size_le h.fits capacity_setLifetime (Nat.le_of_eq size_setLifetime)

theorem Consistent.purgeDue (h : s.Consistent) (order : Arrangement α) (now : Instant)
    (limit : Option Nat) : (s.purgeDue order now limit).2.Consistent where
  indexed := h.indexed.purgeDue order now limit
  fits := fits_of_size_le h.fits (capacity_purgeDue order now limit) size_purgeDue_le

/-! ## Inserting -/

/-- An insert makes the room that it needs. -/
theorem Consistent.insert (h : s.Consistent) (key : α) (value : β) (lifetime : Lifetime)
    (now : Instant) :
    MadeRoom (s.write key value lifetime now) now (s.insert key value lifetime now).1
      (s.insert key value lifetime now).2 := by
  refine (h.indexed.write key value lifetime now).madeRoom ?_ now
  have hsize : (s.write key value lifetime now).entries.size ≤ s.entries.size + 1 := size_write_le
  have hfits := fits_iff.mp h.fits
  rw [capacity_write]
  omega

theorem Consistent.after (h : s.Consistent) (deed : Deed α β) : (s.after deed).Consistent := by
  cases deed with
  | miss => exact h.tallied _
  | hit key => exact (h.tallied _).touch key
  | touch key => exact h.touch key
  | insert key value lifetime now =>
    have hroom := h.insert key value lifetime now
    exact ⟨hroom.indexed, hroom.fits⟩
  | remove key => exact h.remove key
  | replace key value => exact h.replaceValue key value
  | extend key lifetime now => exact h.setLifetime key lifetime now
  | purge order now limit => exact h.purgeDue order now (some limit)
  | reset => exact h.reset

theorem Consistent.afterAll (h : s.Consistent) (deeds : List (Deed α β)) :
    (s.afterAll deeds).Consistent := by
  induction deeds generalizing s with
  | nil => exact h
  | cons deed deeds ih => exact ih (h.after deed)

theorem Consistent.touchAll (h : s.Consistent) (keys : List α) : (s.touchAll keys).Consistent := by
  rw [touchAll_eq_afterAll]
  exact h.afterAll _

theorem capacity_after (h : s.Consistent) (deed : Deed α β) :
    (s.after deed).recency.capacity = s.recency.capacity := by
  cases deed with
  | insert key value lifetime now =>
    exact (h.insert key value lifetime now).capacity_eq.trans capacity_write
  | _ => simp [Store.after]

theorem capacity_afterAll (h : s.Consistent) (deeds : List (Deed α β)) :
    (s.afterAll deeds).recency.capacity = s.recency.capacity := by
  induction deeds generalizing s with
  | nil => rfl
  | cons deed deeds ih => exact (ih (h.after deed)).trans (capacity_after h deed)

end Store

end ExpiringCache
