import ExpiringCache.Proofs.Indices
import ExpiringCache.Store

/-!
# What the operations of a store do to its indices

1. **Stores whose indices agree** (`Store.Indexed`): kept by `remove`, `touch`, `replaceValue`,
   `setLifetime` and `write`. Beside each stands what it does to the entries, and that it leaves the
   capacity and the counters alone.
2. **Counting** (`Indexed.liveCount_eq`): the number of live entries, which is computed as a
   difference, is the number of entries that are live.
-/

namespace ExpiringCache

variable {α β : Type} [Ord α] [Std.TransOrd α]

/-- What an entry says to callers. Its position in the order of use is not part of it. -/
def Entry.content (e : Entry β) : β × Option Instant := (e.value, e.deadline)

theorem Entry.timeLeftAt_of_content {e f : Entry β} (h : e.content = f.content) (now : Instant) :
    e.timeLeftAt now = f.timeLeftAt now := by
  have hdeadline : e.deadline = f.deadline := congrArg Prod.snd h
  simp only [timeLeftAt, hdeadline]

namespace Store

/-- Both indices fit the entries. -/
structure Indexed (s : Store α β) : Prop where
  dated : Dated s.entries s.deadlines
  ranked : Ranked s.entries s.recency

variable {s : Store α β} {key k : α} {now : Instant}

theorem indexed_empty (capacity : Nat) : (empty capacity : Store α β).Indexed :=
  ⟨dated_empty, ranked_empty capacity⟩

theorem Indexed.reset (s : Store α β) : s.reset.Indexed :=
  ⟨dated_empty, ranked_empty s.recency.capacity⟩

/-- The counters are no part of the indices. -/
theorem Indexed.tallied (h : s.Indexed) (tally : Tally) : { s with tally }.Indexed :=
  ⟨h.dated, h.ranked⟩

omit [Std.TransOrd α] in
@[simp] theorem capacity_reset : s.reset.recency.capacity = s.recency.capacity := rfl

theorem live?_eq_some_iff {e : Entry β} :
    s.live? key now = some e ↔ s.entries[key]? = some e ∧ e.isLiveAt now = true := by
  simp [live?, Option.filter_eq_some_iff]

/-- A stored entry that is not live is expired. -/
theorem isExpiredAt_of_live?_eq_none {e : Entry β} (he : s.entries[key]? = some e)
    (hdead : s.live? key now = none) : e.isExpiredAt now = true := by
  rw [live?, he, Option.filter_eq_none_iff] at hdead
  simpa [Entry.isLiveAt] using hdead e rfl

variable [Std.LawfulEqOrd α]

/-! ## Counting -/

theorem mem_liveEntries {e : Entry β} :
    (key, e) ∈ s.liveEntries now ↔ s.live? key now = some e := by
  simp [liveEntries, live?_eq_some_iff]

/-- Where more than one entry is live, one has another key. -/
theorem exists_live_ne (h : 1 < (s.liveEntries now).length) (key : α) :
    ∃ k, k ≠ key ∧ (s.live? k now).isSome = true := by
  have hnodup : ((s.liveEntries now).map (·.1)).Nodup := nodup_keys_filter s.entries _
  have hlive : ∀ pair ∈ s.liveEntries now, (s.live? pair.1 now).isSome = true := fun pair hp => by
    rw [mem_liveEntries.mp hp]
    rfl
  match hl : s.liveEntries now with
  | [] | [_] => simp [hl] at h
  | first :: second :: rest =>
    rw [hl] at hnodup hlive
    have hne : first.1 ≠ second.1 := by
      simp only [List.map_cons, List.nodup_cons, List.mem_cons, not_or] at hnodup
      exact hnodup.1.1
    by_cases hfirst : first.1 = key
    · exact ⟨second.1, fun hsecond => hne (hfirst.trans hsecond.symm), hlive second (by simp)⟩
    · exact ⟨first.1, hfirst, hlive first (by simp)⟩

/-- As many deadlines are due as entries are expired. -/
theorem Indexed.countDue_eq (h : s.Indexed) (now : Instant) :
    s.deadlines.countDue now = (s.entries.toList.filter (·.2.isExpiredAt now)).length := by
  have hdue : ((s.deadlines.due .asListed now).map (·.2)).Nodup :=
    h.dated.nodup_keys (s.deadlines.nodup_due .asListed now)
      fun _ hp => (Deadlines.mem_due.mp hp).1
  have hexpired := nodup_keys_filter s.entries (·.2.isExpiredAt now)
  -- neither list of keys has repetitions, so it is enough that they have the same members
  have hperm := (List.perm_ext_iff_of_nodup hdue hexpired).mpr ?_
  · have hlen := hperm.length_eq
    rw [List.length_map, List.length_map] at hlen
    rw [← Deadlines.length_due _ .asListed, hlen]
  · intro key
    simp only [List.mem_map, List.mem_filter, Prod.exists, exists_eq_right, exists_and_right,
      Deadlines.mem_due, h.dated.holds_iff, Std.ExtTreeMap.mem_toList_iff_getElem?_eq_some,
      Option.bind_eq_some_iff, Entry.isExpiredAt_iff]
    constructor
    · rintro ⟨t, ⟨e, he, ht⟩, hle⟩
      exact ⟨e, he, t, ht, hle⟩
    · rintro ⟨e, he, t, ht, hle⟩
      exact ⟨t, ⟨e, he, ht⟩, hle⟩

/-- The entries less the due deadlines are the live entries. -/
theorem Indexed.liveCount_eq (h : s.Indexed) (now : Instant) :
    s.liveCount now = (s.liveEntries now).length := by
  have hsplit := List.length_eq_length_filter_add (l := s.entries.toList) (·.2.isExpiredAt now)
  rw [liveCount, h.countDue_eq, ← Std.ExtTreeMap.length_toList, hsplit]
  simp [liveEntries, Entry.isLiveAt]

/-! ## Removing -/

omit [Std.LawfulEqOrd α] in
theorem remove_fst (s : Store α β) (key : α) : (s.remove key).1 = s.entries[key]? := by
  cases h : s.entries[key]? <;> simp [remove, h]

theorem getElem?_remove_self : (s.remove key).2.entries[key]? = none := by
  cases h : s.entries[key]? <;> simp [remove, h]

theorem getElem?_remove_of_ne (hk : k ≠ key) :
    (s.remove key).2.entries[k]? = s.entries[k]? := by
  cases h : s.entries[key]? with
  | none => simp [remove, h]
  | some e => simp [remove, h, getElem?_erase_of_ne hk]

omit [Std.LawfulEqOrd α] in
@[simp] theorem capacity_remove : (s.remove key).2.recency.capacity = s.recency.capacity := by
  cases h : s.entries[key]? with
  | none => simp [remove, h]
  | some e => cases hp : e.position <;> simp [remove, h, hp, Recency.remove]

omit [Std.LawfulEqOrd α] in
@[simp] theorem tally_remove : (s.remove key).2.tally = s.tally := by
  cases h : s.entries[key]? <;> simp [remove, h]

omit [Std.LawfulEqOrd α] in
theorem size_erase_of_stored {m : Std.ExtTreeMap α (Entry β)} {e : Entry β}
    (he : m[key]? = some e) : (m.erase key).size + 1 = m.size := by
  have hpos : m.size ≠ 0 := fun h0 => by
    rw [Std.ExtTreeMap.eq_empty_iff_size_eq_zero.mpr h0] at he
    simp at he
  rw [Std.ExtTreeMap.size_erase,
    if_pos (by simp [Std.ExtTreeMap.contains_eq_isSome_getElem?, he])]
  omega

omit [Std.LawfulEqOrd α] in
theorem size_remove {e : Entry β} (he : s.entries[key]? = some e) :
    (s.remove key).2.entries.size = s.entries.size - 1 := by
  have hsize := size_erase_of_stored he
  simp only [remove, he]
  omega

theorem Indexed.remove (h : s.Indexed) (key : α) : (s.remove key).2.Indexed := by
  cases he : s.entries[key]? with
  | none => simpa [Store.remove, he] using h
  | some e =>
    simp only [Store.remove, he]
    exact ⟨h.dated.erase he, h.ranked.erase he⟩

/-! ## Touching -/

omit [Std.LawfulEqOrd α] in
theorem size_insert_of_stored {m : Std.ExtTreeMap α (Entry β)} {e f : Entry β}
    (he : m[key]? = some e) : (m.insert key f).size = m.size := by
  rw [Std.ExtTreeMap.size_insert,
    if_pos (by simp [Std.ExtTreeMap.contains_eq_isSome_getElem?, he])]

omit [Std.LawfulEqOrd α] in
theorem touch_of_unbounded (h : s.recency.capacity = 0) (key : α) : s.touch key = s := by
  simp [touch, Recency.isBounded, h]

omit [Std.LawfulEqOrd α] in
theorem touch_of_absent (h : s.entries[key]? = none) : s.touch key = s := by
  simp [touch, h]

omit [Std.LawfulEqOrd α] in
theorem touch_of_stored (bounded : 0 < s.recency.capacity) {e : Entry β}
    (he : s.entries[key]? = some e) :
    s.touch key =
      { s with
        entries := s.entries.insert key { e with position := some s.recency.next }
        recency := (s.recency.touch key e.position).2 } := by
  simp [touch, Recency.isBounded, bounded, he, Recency.touch]

omit [Std.LawfulEqOrd α] in
/-- A touch moves a key, or has no effect where no order is kept or the key is not stored. -/
theorem touch_cases (s : Store α β) (key : α) :
    s.touch key = s ∨ 0 < s.recency.capacity ∧ ∃ e, s.entries[key]? = some e := by
  by_cases hcap : s.recency.capacity = 0
  · exact .inl (touch_of_unbounded hcap key)
  · cases he : s.entries[key]? with
    | none => exact .inl (touch_of_absent he)
    | some e => exact .inr ⟨by omega, e, rfl⟩

/-- What is said of the key stays, and all that is said of others. -/
theorem content_touch (s : Store α β) (key k : α) :
    (s.touch key).entries[k]?.map Entry.content = s.entries[k]?.map Entry.content := by
  rcases touch_cases s key with h | ⟨hcap, e, he⟩
  · rw [h]
  · rw [touch_of_stored hcap he]
    by_cases hk : k = key
    · subst hk
      simp [he, Entry.content]
    · rw [getElem?_insert_of_ne hk]

theorem getElem?_touch_of_ne (hk : k ≠ key) : (s.touch key).entries[k]? = s.entries[k]? := by
  rcases touch_cases s key with h | ⟨hcap, e, he⟩
  · rw [h]
  · rw [touch_of_stored hcap he, getElem?_insert_of_ne hk]

omit [Std.LawfulEqOrd α] in
@[simp] theorem capacity_touch : (s.touch key).recency.capacity = s.recency.capacity := by
  rcases touch_cases s key with h | ⟨hcap, e, he⟩
  · rw [h]
  · rw [touch_of_stored hcap he]
    rfl

omit [Std.LawfulEqOrd α] in
@[simp] theorem tally_touch : (s.touch key).tally = s.tally := by
  rcases touch_cases s key with h | ⟨hcap, e, he⟩
  · rw [h]
  · rw [touch_of_stored hcap he]

omit [Std.LawfulEqOrd α] in
@[simp] theorem deadlines_touch : (s.touch key).deadlines = s.deadlines := by
  rcases touch_cases s key with h | ⟨hcap, e, he⟩
  · rw [h]
  · rw [touch_of_stored hcap he]

omit [Std.LawfulEqOrd α] in
@[simp] theorem size_touch : (s.touch key).entries.size = s.entries.size := by
  rcases touch_cases s key with h | ⟨hcap, e, he⟩
  · rw [h]
  · rw [touch_of_stored hcap he]
    exact size_insert_of_stored he

theorem Indexed.touch (h : s.Indexed) (key : α) : (s.touch key).Indexed := by
  rcases touch_cases s key with hs | ⟨hcap, e, he⟩
  · rwa [hs]
  · rw [touch_of_stored hcap he]
    refine ⟨h.dated.replace (by simp [he]), ?_⟩
    simpa [he] using h.ranked.touch hcap key e

omit [Std.LawfulEqOrd α] in
@[simp] theorem capacity_touchAll {keys : List α} :
    (s.touchAll keys).recency.capacity = s.recency.capacity := by
  induction keys generalizing s with
  | nil => rfl
  | cons key keys ih => exact ih.trans capacity_touch

omit [Std.LawfulEqOrd α] in
@[simp] theorem tally_touchAll {keys : List α} : (s.touchAll keys).tally = s.tally := by
  induction keys generalizing s with
  | nil => rfl
  | cons key keys ih => exact ih.trans tally_touch

omit [Std.LawfulEqOrd α] in
@[simp] theorem deadlines_touchAll {keys : List α} :
    (s.touchAll keys).deadlines = s.deadlines := by
  induction keys generalizing s with
  | nil => rfl
  | cons key keys ih => exact ih.trans deadlines_touch

omit [Std.LawfulEqOrd α] in
/-- Touching looks at no counter. -/
theorem touch_tallied (s : Store α β) (tally : Tally) (key : α) :
    { s with tally }.touch key = { s.touch key with tally } := by
  by_cases hcap : s.recency.isBounded = true
  · cases he : s.entries[key]? <;> simp [touch, hcap, he]
  · simp [touch, hcap]

omit [Std.LawfulEqOrd α] in
theorem touchAll_tallied (s : Store α β) (tally : Tally) (keys : List α) :
    { s with tally }.touchAll keys = { s.touchAll keys with tally } := by
  induction keys generalizing s with
  | nil => rfl
  | cons key keys ih =>
    show ({ s with tally }.touch key).touchAll keys = _
    rw [touch_tallied, ih]
    rfl

/-! ## Changing one thing about an entry -/

omit [Std.LawfulEqOrd α] in
/-- Replacing a value changes the entry and then touches it. -/
theorem replaceValue_of_stored {e : Entry β} (he : s.entries[key]? = some e) (value : β) :
    s.replaceValue key value =
      { s with entries := s.entries.insert key { e with value } }.touch key := by
  simp [replaceValue, he]

omit [Std.LawfulEqOrd α] in
theorem replaceValue_of_absent (he : s.entries[key]? = none) (value : β) :
    s.replaceValue key value = s := by
  simp [replaceValue, he]

omit [Std.LawfulEqOrd α] in
@[simp] theorem capacity_replaceValue {value : β} :
    (s.replaceValue key value).recency.capacity = s.recency.capacity := by
  cases he : s.entries[key]? <;> simp [replaceValue, he]

omit [Std.LawfulEqOrd α] in
@[simp] theorem tally_replaceValue {value : β} : (s.replaceValue key value).tally = s.tally := by
  cases he : s.entries[key]? <;> simp [replaceValue, he]

omit [Std.LawfulEqOrd α] in
@[simp] theorem size_replaceValue {value : β} :
    (s.replaceValue key value).entries.size = s.entries.size := by
  cases he : s.entries[key]? with
  | none => rw [replaceValue_of_absent he]
  | some e =>
    rw [replaceValue_of_stored he, size_touch]
    exact size_insert_of_stored he

omit [Std.LawfulEqOrd α] in
@[simp] theorem capacity_setLifetime {lifetime : Lifetime} :
    (s.setLifetime key lifetime now).recency.capacity = s.recency.capacity := by
  cases hl : s.live? key now <;> simp [setLifetime, hl]

omit [Std.LawfulEqOrd α] in
@[simp] theorem tally_setLifetime {lifetime : Lifetime} :
    (s.setLifetime key lifetime now).tally = s.tally := by
  cases hl : s.live? key now <;> simp [setLifetime, hl]

omit [Std.LawfulEqOrd α] in
@[simp] theorem size_setLifetime {lifetime : Lifetime} :
    (s.setLifetime key lifetime now).entries.size = s.entries.size := by
  cases hl : s.live? key now with
  | none => simp [setLifetime, hl]
  | some e =>
    simp only [setLifetime, hl]
    exact size_insert_of_stored (live?_eq_some_iff.mp hl).1

/-- Another value in an entry concerns neither index. -/
theorem Indexed.replaceEntry (h : s.Indexed) {e : Entry β} (he : s.entries[key]? = some e)
    (value : β) : { s with entries := s.entries.insert key { e with value } }.Indexed where
  dated := h.dated.replace (by simp [he])
  ranked := h.ranked.replace (by simp [he]) (h.ranked.placed_iff key e he)

theorem Indexed.replaceValue (h : s.Indexed) (key : α) (value : β) :
    (s.replaceValue key value).Indexed := by
  cases he : s.entries[key]? with
  | none => rwa [replaceValue_of_absent he]
  | some e =>
    rw [replaceValue_of_stored he]
    exact (h.replaceEntry he value).touch key

theorem Indexed.setLifetime (h : s.Indexed) (key : α) (lifetime : Lifetime) (now : Instant) :
    (s.setLifetime key lifetime now).Indexed := by
  cases hl : s.live? key now with
  | none => simpa [Store.setLifetime, hl] using h
  | some e =>
    have he := (live?_eq_some_iff.mp hl).1
    simp only [Store.setLifetime, hl]
    refine ⟨?_, h.ranked.replace (by simp [he]) (h.ranked.placed_iff key e he)⟩
    simpa [he] using h.dated.insert key { e with deadline := lifetime.deadline now }

/-! ## Writing -/

/-- The entry that a write leaves behind. -/
def written (s : Store α β) (value : β) (lifetime : Lifetime) (now : Instant) : Entry β where
  value
  deadline := lifetime.deadline now
  position := if 0 < s.recency.capacity then some s.recency.next else none

variable {value : β} {lifetime : Lifetime}

omit [Std.LawfulEqOrd α] in
theorem entries_write :
    (s.write key value lifetime now).entries =
      s.entries.insert key (s.written value lifetime now) := by
  by_cases hcap : 0 < s.recency.capacity <;>
    simp [write, written, Recency.isBounded, hcap, Entry.fresh, Recency.touch]

omit [Std.LawfulEqOrd α] in
theorem getElem?_write_self :
    (s.write key value lifetime now).entries[key]? = some (s.written value lifetime now) := by
  rw [entries_write, Std.ExtTreeMap.getElem?_insert_self]

omit [Std.LawfulEqOrd α] in
/-- What is written now is live, unless the clock can show no later moment. -/
theorem live?_write_self (hnow : now < .latest) :
    (s.write key value lifetime now).live? key now = some (s.written value lifetime now) := by
  refine live?_eq_some_iff.mpr ⟨getElem?_write_self, ?_⟩
  rw [Entry.isLiveAt_iff]
  intro t ht
  exact Lifetime.lt_deadline hnow ht

theorem getElem?_write_of_ne (hk : k ≠ key) :
    (s.write key value lifetime now).entries[k]? = s.entries[k]? := by
  rw [entries_write, getElem?_insert_of_ne hk]

omit [Std.LawfulEqOrd α] in
@[simp] theorem capacity_write :
    (s.write key value lifetime now).recency.capacity = s.recency.capacity := by
  by_cases hcap : 0 < s.recency.capacity <;>
    simp [write, Recency.isBounded, hcap, Recency.touch]

omit [Std.LawfulEqOrd α] in
@[simp] theorem tally_write : (s.write key value lifetime now).tally = s.tally := by
  by_cases hcap : 0 < s.recency.capacity <;> simp [write, Recency.isBounded, hcap]

omit [Std.LawfulEqOrd α] in
theorem size_write :
    (s.write key value lifetime now).entries.size =
      s.entries.size + if !s.entries.contains key then 1 else 0 := by
  rw [entries_write, Std.ExtTreeMap.size_insert]
  cases s.entries.contains key <;> simp

omit [Std.LawfulEqOrd α] in
theorem size_write_le : (s.write key value lifetime now).entries.size ≤ s.entries.size + 1 := by
  rw [size_write]
  split <;> omega

theorem Indexed.write (h : s.Indexed) (key : α) (value : β) (lifetime : Lifetime)
    (now : Instant) : (s.write key value lifetime now).Indexed := by
  have hdated := h.dated.insert key (s.written value lifetime now)
  by_cases hcap : 0 < s.recency.capacity
  · have hranked := h.ranked.touch hcap key (s.written value lifetime now)
    simp only [written, hcap, if_true] at hdated hranked
    constructor
    · simpa [Store.write, Recency.isBounded, hcap, Entry.fresh, Recency.touch] using hdated
    · simpa [Store.write, Recency.isBounded, hcap, Entry.fresh, Recency.touch] using hranked
  · simp only [written, hcap, if_false] at hdated
    constructor
    · simpa [Store.write, Recency.isBounded, hcap, Entry.fresh] using hdated
    · -- the entry has no position, and the one in its place had none
      have hnone : s.entries[key]?.bind (·.position) = none := by
        cases he : s.entries[key]? with
        | none => rfl
        | some e => simpa [hcap] using h.ranked.placed_iff key e he
      have hwritten : s.entries[key]?.bind (·.position) =
          (s.written value lifetime now).position := by simp [hnone, written, hcap]
      have := h.ranked.replace hwritten (by simp [written, hcap])
      simpa [Store.write, Recency.isBounded, hcap, Entry.fresh, written] using this

end Store

end ExpiringCache
