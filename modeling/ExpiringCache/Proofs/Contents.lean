import ExpiringCache.Proofs.Eviction

/-!
# The contents of a store

The rows that a store holds: values with the moment at which they expire, and nothing of the order
of use. A caller is told of live rows only.

1. **Rows** (`Rows.live?`, `Rows.live`): the row of a key, and all rows, at one moment.
2. **Contents** (`Store.contents`): what a store shows (`live?_contents`, `live_contents`), and what
   each of its operations does to the rows.
-/

namespace ExpiringCache

/-- Values with the moment at which they expire, if they do. -/
abbrev Rows (α β : Type) [Ord α] := Std.ExtTreeMap α (β × Option Instant)

namespace Rows

variable {α β : Type} [Ord α] [Std.TransOrd α]

/-- A row is live if it does not expire, or not yet. -/
def isLive (now : Instant) (row : β × Option Instant) : Bool :=
  row.2.all fun expiry => decide (now < expiry)

/-- The live row of a key. -/
def live? (rows : Rows α β) (key : α) (now : Instant) : Option (β × Option Instant) :=
  rows[key]?.filter (isLive now)

/-- The live rows in the order of their keys. -/
def live (rows : Rows α β) (now : Instant) : List (α × β × Option Instant) :=
  rows.toList.filter fun row => isLive now row.2

section Changes

variable [Std.LawfulEqOrd α] {rows : Rows α β} {key k : α} {row : β × Option Instant}
  {now later : Instant}

@[simp] theorem live?_insert_self :
    live? (rows.insert key row) key now = (some row).filter (isLive now) := by
  simp [live?]

theorem live?_insert_of_ne (hk : k ≠ key) :
    live? (rows.insert key row) k now = rows.live? k now := by
  rw [live?, getElem?_insert_of_ne hk, live?]

@[simp] theorem live?_erase_self : live? (rows.erase key) key now = none := by
  simp [live?]

theorem live?_erase_of_ne (hk : k ≠ key) : live? (rows.erase key) k now = rows.live? k now := by
  rw [live?, getElem?_erase_of_ne hk, live?]

end Changes

end Rows

namespace Store

variable {α β : Type} [Ord α] [Std.TransOrd α]

omit [Ord α] [Std.TransOrd α] in
@[simp] theorem content_fst (e : Entry β) : e.content.1 = e.value := rfl

/-- The rows that a store holds. -/
def contents (s : Store α β) : Rows α β := s.entries.map fun _ e => e.content

variable [Std.LawfulEqOrd α] {s : Store α β} {key k : α} {now : Instant}

theorem getElem?_contents : s.contents[k]? = s.entries[k]?.map Entry.content :=
  Std.ExtTreeMap.getElem?_map

omit [Std.LawfulEqOrd α] in
theorem size_eq_of_contents {t : Store α β} (h : s.contents = t.contents) :
    s.entries.size = t.entries.size := by
  have hsize := congrArg Std.ExtTreeMap.size h
  rwa [contents, contents, Std.ExtTreeMap.size_map, Std.ExtTreeMap.size_map] at hsize

omit [Ord α] [Std.TransOrd α] [Std.LawfulEqOrd α] in
theorem isLive_content (e : Entry β) (now : Instant) :
    Rows.isLive now e.content = e.isLiveAt now := by
  rw [Bool.eq_iff_iff, Entry.isLiveAt_iff]
  cases h : e.deadline <;> simp [Rows.isLive, Entry.content, h]

theorem live?_contents : s.contents.live? key now = (s.live? key now).map Entry.content := by
  rw [Rows.live?, getElem?_contents, live?]
  cases s.entries[key]? with
  | none => rfl
  | some e => by_cases hl : e.isLiveAt now = true <;> simp [Option.filter, isLive_content, hl]

theorem value_live?_contents :
    (s.contents.live? key now).map (·.1) = (s.live? key now).map (·.value) := by
  rw [live?_contents, Option.map_map]
  rfl

omit [Std.LawfulEqOrd α] in
theorem live_contents :
    s.contents.live now = (s.liveEntries now).map fun pair => (pair.1, pair.2.content) := by
  rw [Rows.live, contents, Std.ExtTreeMap.toList_map, List.filter_map, liveEntries]
  congr 2
  funext pair
  exact isLive_content pair.2 now

/-! ## What is done to the contents -/

theorem map_content_insert (entries : Std.ExtTreeMap α (Entry β)) (key : α) (e : Entry β) :
    (entries.insert key e).map (fun _ e => e.content) =
      (entries.map fun _ e => e.content).insert key e.content := by
  apply Std.ExtTreeMap.ext_getElem?
  intro k
  by_cases hk : k = key
  · subst hk
    simp
  · simp [Std.ExtTreeMap.getElem?_map, getElem?_insert_of_ne hk]

theorem contents_write (value : β) (lifetime : Lifetime) :
    (s.write key value lifetime now).contents =
      s.contents.insert key (value, lifetime.deadline now) := by
  rw [contents, entries_write, map_content_insert]
  rfl

theorem contents_remove (s : Store α β) (key : α) :
    (s.remove key).2.contents = s.contents.erase key := by
  apply Std.ExtTreeMap.ext_getElem?
  intro k
  rw [getElem?_contents]
  by_cases hk : k = key
  · subst hk
    simp [getElem?_remove_self]
  · rw [getElem?_remove_of_ne hk, getElem?_erase_of_ne hk, getElem?_contents]

theorem contents_touch (s : Store α β) (key : α) : (s.touch key).contents = s.contents := by
  apply Std.ExtTreeMap.ext_getElem?
  intro k
  rw [getElem?_contents, content_touch, getElem?_contents]

theorem contents_touchAll (s : Store α β) (keys : List α) :
    (s.touchAll keys).contents = s.contents := by
  induction keys generalizing s with
  | nil => rfl
  | cons key keys ih => exact (ih (s.touch key)).trans (contents_touch s key)

theorem contents_replaceValue {e : Entry β} (he : s.entries[key]? = some e) (value : β) :
    (s.replaceValue key value).contents = s.contents.insert key (value, e.deadline) := by
  rw [replaceValue_of_stored he, contents_touch, contents, map_content_insert]
  rfl

theorem contents_setLifetime {e : Entry β} (he : s.live? key now = some e)
    (lifetime : Lifetime) :
    (s.setLifetime key lifetime now).contents =
      s.contents.insert key (e.value, lifetime.deadline now) := by
  simp only [setLifetime, he]
  rw [contents, map_content_insert]
  rfl

end Store

end ExpiringCache
