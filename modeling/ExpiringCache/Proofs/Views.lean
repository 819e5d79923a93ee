import ExpiringCache.Proofs.Indistinct
import ExpiringCache.Proofs.Refinement

/-!
# All views of an open cache agree

A cache tells of its live entries in many ways. The number of them is computed from the index of
deadlines; the lists pick the entries that are not expired; the operations on one key look at its
entry alone; and an update looks at it only after the pending touches were replayed.

1. **Stores** (`Store.Indexed.countDue_le`, `Store.mem_keys_live`, `Store.mem_pairs_live`): what is
   counted and what is listed, put in terms of the entry of one key.
2. **What remains** (`answer_timeLeft`): a clock that is not before the epoch always shows what
   remains of a lifetime, and it is `-1` for the keys that are not live only.
3. **The cache** (`Cache.ViewsAgree`): in every open state that sections lead to, whatever the clock
   shows.
-/

namespace ExpiringCache

variable {α β : Type} [Ord α] [Std.TransOrd α] [Std.LawfulEqOrd α]

namespace Store

variable {s : Store α β} {key : α} {now : Instant}

/-- The due deadlines are those of stored entries, so the difference between the two numbers is
never cut off at zero. -/
theorem Indexed.countDue_le (h : s.Indexed) (now : Instant) :
    s.deadlines.countDue now ≤ s.entries.size := by
  rw [h.countDue_eq, ← Std.ExtTreeMap.length_toList]
  exact List.length_filter_le _ _

theorem mem_keys_live :
    key ∈ (s.liveEntries now).map (·.1) ↔ (s.live? key now).isSome = true := by
  rw [List.mem_map, Option.isSome_iff_exists]
  constructor
  · rintro ⟨⟨k, e⟩, hmem, rfl⟩
    exact ⟨e, mem_liveEntries.mp hmem⟩
  · rintro ⟨e, he⟩
    exact ⟨(key, e), mem_liveEntries.mpr he, rfl⟩

theorem mem_pairs_live {value : β} :
    (key, value) ∈ (s.liveEntries now).map (fun pair => (pair.1, pair.2.value)) ↔
      (s.live? key now).map (·.value) = some value := by
  rw [List.mem_map, Option.map_eq_some_iff]
  constructor
  · rintro ⟨⟨k, e⟩, hmem, heq⟩
    cases heq
    exact ⟨e, mem_liveEntries.mp hmem, rfl⟩
  · rintro ⟨e, he, rfl⟩
    exact ⟨(key, e), mem_liveEntries.mpr he, rfl⟩

end Store

omit [Ord α] [Std.TransOrd α] [Std.LawfulEqOrd α] in
theorem Rows.toMillis_timeLeft_ne (row : β × Option Instant) (now : Instant) :
    (timeLeft row now).toMillis ≠ -1 := by
  obtain ⟨value, expiry⟩ := row
  cases expiry with
  | none => simp [timeLeft, TimeLeft.toMillis]
  | some expiry =>
    simp only [timeLeft, TimeLeft.toMillis]
    omega

namespace Cache

variable {c : Cache α β} {key : α} {now : Instant}

/-! ## One key -/

theorem value_live?_settled (c : Cache α β) (key : α) (now : Instant) :
    (c.settled.live? key now).map (·.value) = (c.store.live? key now).map (·.value) := by
  rw [← Store.value_live?_contents, contents_settled, Store.value_live?_contents]

theorem isSome_live?_settled (c : Cache α β) (key : α) (now : Instant) :
    (c.settled.live? key now).isSome = (c.store.live? key now).isSome := by
  have hsome := congrArg Option.isSome (value_live?_settled c key now)
  rwa [Option.isSome_map, Option.isSome_map] at hsome

/-- What a caller is told of a lifetime, where the clock is not before the epoch. -/
theorem answer_timeLeft (hnow : 0 ≤ now.ms) (c : Cache α β) (key : α) :
    (c.timeLeft key now).answer =
      .ok ((c.store.contents.live? key now).elim .absent (Rows.timeLeft · now)) := by
  rw [Store.live?_contents]
  cases hlive : c.store.live? key now with
  | none => simp [timeLeft, reading, hlive]
  | some e =>
    have hleft := timeLeftAt_of_live hnow (Store.live?_eq_some_iff.mp hlive).2
    simp [timeLeft, reading, hlive, hleft]

/-- An update of an open cache answers what a lookup finds. -/
theorem answer_update (hopen : c.closed = false) (key : α) (value : Option β) (now : Instant) :
    (c.update key value now).answer =
      ((c.store.live? key now).map (·.value), (c.store.live? key now).isSome) := by
  rw [← value_live?_settled, ← isSome_live?_settled, settled]
  cases hlive : c.settle.store.live? key now <;> simp [update, writing, hopen, hlive]

/-! ## All keys -/

/-- Everything that a cache tells of its live entries at `now` fits together. -/
structure ViewsAgree (c : Cache α β) (now : Instant) : Prop where
  /-- The number of live entries is a difference that is not cut off at zero. -/
  due_le : c.store.deadlines.countDue now ≤ c.store.entries.size
  size_eq : (c.size now).answer = c.store.entries.size - c.store.deadlines.countDue now
  length_pairs : (c.pairs now).answer.length = (c.size now).answer
  length_keys : (c.keys now).answer.length = (c.size now).answer
  length_values : (c.values now).answer.length = (c.size now).answer
  statistics_eq : (c.statistics now).liveEntries = (c.size now).answer
  nodup_keys : (c.keys now).answer.Nodup
  keys_eq : (c.keys now).answer = (c.pairs now).answer.map (·.1)
  values_eq : (c.values now).answer = (c.pairs now).answer.map (·.2)
  /-- The pairs list the value that a lookup finds, and no other. -/
  mem_pairs_iff : ∀ (key : α) (value : β),
    (key, value) ∈ (c.pairs now).answer ↔ (c.lookup key now).answer = some value
  contains_iff : ∀ key : α,
    (c.contains key now).answer = true ↔ (c.lookup key now).answer.isSome = true
  mem_keys_iff : ∀ key : α,
    key ∈ (c.keys now).answer ↔ (c.lookup key now).answer.isSome = true
  /-- An update would find the same value, and say that it existed. -/
  update_eq : ∀ (key : α) (value : β), (c.update key (some value) now).answer =
    ((c.lookup key now).answer, (c.lookup key now).answer.isSome)
  timeLeft_iff : 0 ≤ now.ms → ∀ key : α, ∃ left, (c.timeLeft key now).answer = .ok left ∧
    (left.toMillis ≠ -1 ↔ (c.lookup key now).answer.isSome = true)

theorem Consistent.viewsAgree (h : c.Consistent) (hopen : c.closed = false) (now : Instant) :
    c.ViewsAgree now := by
  have hindexed := h.store.indexed
  have hsize : (c.size now).answer = (c.store.liveEntries now).length :=
    hindexed.liveCount_eq now
  have hsome : ∀ key, (c.lookup key now).answer.isSome = (c.store.live? key now).isSome := by
    intro key
    rw [answer_lookup, Option.isSome_map]
  constructor
  · exact hindexed.countDue_le now
  · rfl
  · rw [hsize]
    exact List.length_map _
  · rw [hsize]
    exact List.length_map _
  · rw [hsize]
    exact List.length_map _
  · rfl
  · exact nodup_keys_filter c.store.entries _
  · simp [keys, pairs, reading]
  · simp [values, pairs, reading]
  · intro key value
    rw [answer_lookup]
    exact Store.mem_pairs_live
  · intro key
    rw [hsome]
    rfl
  · intro key
    rw [hsome]
    exact Store.mem_keys_live
  · intro key value
    rw [hsome, answer_lookup]
    exact answer_update hopen key (some value) now
  · intro hnow key
    refine ⟨_, answer_timeLeft hnow c key, ?_⟩
    rw [hsome, Store.live?_contents]
    cases c.store.live? key now with
    | none => simp [TimeLeft.toMillis]
    | some e => simpa using Rows.toMillis_timeLeft_ne e.content now

/-- In every open state that a run of sections leads to, and whatever the clock shows, also if it
went back, all views agree. -/
theorem viewsAgree_of_reachable (capacity batch : Nat) (sweeper : Option Nat)
    (run : List (Section α β × Instant))
    (hopen : ({ (empty capacity batch : Cache α β) with sweeper }.enactAll run).closed = false)
    (now : Instant) :
    ({ (empty capacity batch : Cache α β) with sweeper }.enactAll run).ViewsAgree now := by
  have hempty : { (empty capacity batch : Cache α β) with sweeper }.Consistent :=
    ⟨Store.consistent_empty capacity, fun _ => rfl⟩
  exact (hempty.enactAll run).viewsAgree hopen now

/-- One entry was extended, one purged in part of a sweep, and one is stored although it expired;
then the clock goes back to when it was live. -/
theorem viewsAgree_after_clock_went_back :
    let run : List (Section Nat Nat × Instant) :=
      [(.perform (.setAll [(1, some 10), (2, some 20), (3, some 30)] (.ofMillis 5)), .clamp 0),
        (.perform (.setLifetime 1 (.ofMillis 9)), .clamp 2),
        (.look ⟨.getOrSet, 1, .forever⟩, .clamp 3), (.sweepBatch .asListed, .clamp 6)]
    let c := { (empty 3 1 : Cache Nat Nat) with sweeper := some 0 }.enactAll run
    c.closed = false ∧ c.store.entries.keys = [1, 3] ∧ (c.keys (.clamp 7)).answer = [1] ∧
      (c.keys (.clamp 4)).answer = [1, 3] ∧ c.ViewsAgree (.clamp 7) ∧ c.ViewsAgree (.clamp 4) := by
  intro run c
  have hopen : c.closed = false := by decide +kernel
  refine ⟨hopen, by decide +kernel, by decide +kernel, by decide +kernel, ?_, ?_⟩
  · exact viewsAgree_of_reachable 3 1 (some 0) run hopen (.clamp 7)
  · exact viewsAgree_of_reachable 3 1 (some 0) run hopen (.clamp 4)

end Cache

end ExpiringCache
