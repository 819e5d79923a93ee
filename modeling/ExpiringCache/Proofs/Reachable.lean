import ExpiringCache.Proofs.Sections

/-!
# The indices of reachable caches

In every state that sections lead to from an empty cache, in whatever order the sections of
different callers follow each other and whatever the clock shows, both indices of the store say
what the entries say.

1. **The invariant** (`Cache.Consistent`): the store is consistent, and touches are kept only where
   there is a bound. Every effect keeps it (`Consistent.after`), so every run does
   (`Consistent.enactAll`).
2. **Item by item** (`Cache.IndicesAgree`): what the invariant says of the pairs of the index, its
   buckets and its count, and of the positions in the order of use.
-/

namespace ExpiringCache

namespace Cache

variable {α β : Type} [Ord α] [Std.TransOrd α]

/-- The indices fit, there is room for all entries, and without a bound nothing waits to be
replayed. -/
structure Consistent (c : Cache α β) : Prop where
  store : c.store.Consistent
  untouched : c.store.recency.capacity = 0 → c.touches.toList = []

theorem consistent_empty (capacity batch : Nat) :
    (empty capacity batch : Cache α β).Consistent where
  store := Store.consistent_empty capacity
  untouched _ := rfl

/-- Which sweeper serves a cache makes no difference. -/
theorem consistent_start (capacity batch : Nat) (sweeper : Option Nat) :
    { (empty capacity batch : Cache α β) with sweeper }.Consistent :=
  ⟨Store.consistent_empty capacity, fun _ => rfl⟩

variable {c : Cache α β}

/-! ## Settling -/

theorem settle_of_unbounded (h : c.store.recency.capacity = 0) : c.settle = c := by
  simp [settle, Recency.isBounded, h]

theorem settle_of_bounded (h : 0 < c.store.recency.capacity) :
    c.settle = { c with store := c.store.touchAll c.touches.toList, touches := .empty } := by
  simp [settle, Recency.isBounded, h]

@[simp] theorem closed_settle : c.settle.closed = c.closed := by
  by_cases h : 0 < c.store.recency.capacity
  · rw [settle_of_bounded h]
  · rw [settle_of_unbounded (by omega)]

@[simp] theorem capacity_settle :
    c.settle.store.recency.capacity = c.store.recency.capacity := by
  by_cases h : 0 < c.store.recency.capacity
  · rw [settle_of_bounded h]
    exact Store.capacity_touchAll
  · rw [settle_of_unbounded (by omega)]

@[simp] theorem batch_settle (c : Cache α β) : c.settle.batch = c.batch := by
  unfold settle
  split <;> rfl

/-! ## Leaving a touch -/

omit [Std.TransOrd α] in
@[simp] theorem store_noteHit (c : Cache α β) (key : α) : (c.noteHit key).1.store = c.store := by
  unfold noteHit
  split
  · split <;> rfl
  · rfl

omit [Std.TransOrd α] in
theorem noteHit_of_unbounded (h : c.store.recency.capacity = 0) (key : α) :
    (c.noteHit key).1 = c := by
  simp [noteHit, Recency.isBounded, h]

theorem batch_after (c : Cache α β) (effect : Effect α β) : (c.after effect).batch = c.batch := by
  cases effect with
  | hit key =>
    simp only [Cache.after, noteHit]
    split
    · split <;> rfl
    · rfl
  | write deeds =>
    simp only [Cache.after]
    split
    · rfl
    · exact batch_settle c
  | _ => rfl

theorem batch_enactAll (c : Cache α β) (run : List (Section α β × Instant)) :
    (c.enactAll run).batch = c.batch := by
  induction run generalizing c with
  | nil => rfl
  | cons step run ih => rw [enactAll_cons, ih, enact_eq_after, batch_after]

/-! ## The invariant -/

variable [Std.LawfulEqOrd α]

theorem Consistent.settle (h : c.Consistent) : c.settle.Consistent := by
  by_cases hcap : 0 < c.store.recency.capacity
  · rw [settle_of_bounded hcap]
    exact ⟨h.store.touchAll _, fun _ => rfl⟩
  · rwa [settle_of_unbounded (by omega)]

omit [Std.LawfulEqOrd α] in
theorem Consistent.clear (h : c.Consistent) : c.clear.cache.Consistent where
  store := h.store.reset
  untouched _ := rfl

/-- Whatever a section does, the invariant is kept. -/
theorem Consistent.after (h : c.Consistent) (effect : Effect α β) :
    (c.after effect).Consistent := by
  cases effect with
  | idle => exact h
  | miss => exact ⟨h.store.tallied _, h.untouched⟩
  | hit key =>
    refine ⟨?_, fun hcap => ?_⟩
    · simp only [Cache.after, store_noteHit]
      exact h.store.tallied _
    · simp only [Cache.after, store_noteHit] at hcap
      simp only [Cache.after]
      rw [noteHit_of_unbounded (by exact hcap)]
      exact h.untouched hcap
  | write deeds =>
    simp only [Cache.after]
    split
    · exact h
    · refine ⟨h.settle.store.afterAll deeds, fun hcap => h.settle.untouched ?_⟩
      rwa [Store.capacity_afterAll h.settle.store] at hcap
  | clear => exact h.clear
  | shut => exact ⟨h.store, h.untouched⟩
  | close => exact Consistent.clear ⟨h.store, h.untouched⟩

theorem Consistent.enact (h : c.Consistent) (sec : Section α β) (now : Instant) :
    (c.enact sec now).Consistent := by
  rw [enact_eq_after]
  exact h.after _

theorem Consistent.enactAll (h : c.Consistent) (run : List (Section α β × Instant)) :
    (c.enactAll run).Consistent := by
  induction run generalizing c with
  | nil => exact h
  | cons step run ih => exact ih (h.enact step.1 step.2)

theorem capacity_cache_after (h : c.Consistent) (effect : Effect α β) :
    (c.after effect).store.recency.capacity = c.store.recency.capacity := by
  cases effect with
  | write deeds =>
    simp only [Cache.after]
    split
    · rfl
    · exact (Store.capacity_afterAll h.settle.store deeds).trans capacity_settle
  | hit key =>
    rw [Cache.after, store_noteHit]
    rfl
  | _ => rfl

theorem capacity_enactAll (h : c.Consistent) (run : List (Section α β × Instant)) :
    (c.enactAll run).store.recency.capacity = c.store.recency.capacity := by
  induction run generalizing c with
  | nil => rfl
  | cons step run ih =>
    refine (ih (h.enact step.1 step.2)).trans ?_
    rw [enact_eq_after]
    exact capacity_cache_after h _

/-! ## Item by item -/

/-- The indices of a cache of the given capacity say of every entry what it says of itself, and
nothing else. -/
structure IndicesAgree (capacity : Nat) (c : Cache α β) : Prop where
  capacity_eq : c.store.recency.capacity = capacity
  /-- The index of deadlines lists every entry that has one, with its deadline. -/
  mem_pairs_iff : ∀ (t : Instant) (key : α), (t, key) ∈ c.store.deadlines.pairs ↔
    ∃ e, c.store.entries[key]? = some e ∧ e.deadline = some t
  nodup_pairs : c.store.deadlines.pairs.Nodup
  bucket_ne_empty : ∀ (t : Instant) (bucket : Std.ExtTreeSet α),
    c.store.deadlines.buckets[t]? = some bucket → bucket ≠ ∅
  count_eq : c.store.deadlines.count = c.store.deadlines.pairs.length
  /-- Where a bound is kept, the order of use lists every entry, at its position. -/
  order_iff : 0 < capacity → ∀ (p : Nat) (key : α), c.store.recency.order[p]? = some key ↔
    ∃ e, c.store.entries[key]? = some e ∧ e.position = some p
  placed : 0 < capacity → ∀ (key : α) (e : Entry β), c.store.entries[key]? = some e →
    ∃ p, e.position = some p ∧ p < c.store.recency.next
  position_inj : 0 < capacity → ∀ (key k : α) (e f : Entry β),
    c.store.entries[key]? = some e → c.store.entries[k]? = some f → e.position = f.position →
      key = k
  size_le : 0 < capacity → c.store.entries.size ≤ capacity
  /-- Without a bound nothing is said of the order of use anywhere. -/
  order_eq_empty : capacity = 0 → c.store.recency.order = ∅
  next_eq_zero : capacity = 0 → c.store.recency.next = 0
  unplaced : capacity = 0 → ∀ (key : α) (e : Entry β), c.store.entries[key]? = some e →
    e.position = none
  untouched : capacity = 0 → c.touches.toList = []

theorem Consistent.indicesAgree (h : c.Consistent) :
    c.IndicesAgree c.store.recency.capacity := by
  have hdated := h.store.indexed.dated
  have hranked := h.store.indexed.ranked
  constructor
  · rfl
  · intro t key
    rw [Deadlines.mem_pairs, hdated.holds_iff, Option.bind_eq_some_iff]
  · exact Deadlines.nodup_pairs _
  · exact hdated.wellFormed.bucket_ne_empty
  · exact hdated.wellFormed.count_eq
  · intro _ p key
    rw [hranked.order_iff, Option.bind_eq_some_iff]
  · intro bounded key e he
    obtain ⟨p, hpos, hp⟩ := hranked.position bounded he
    exact ⟨p, hpos, hranked.lt_next p key hp⟩
  · intro bounded key k e f he hf hpos
    obtain ⟨p, hpe, hp⟩ := hranked.position bounded he
    obtain ⟨q, hqf, hq⟩ := hranked.position bounded hf
    rw [hpe, hqf, Option.some.injEq] at hpos
    rw [hpos, hq] at hp
    exact (Option.some.inj hp).symm
  · intro bounded
    have := Store.fits_iff.mp h.store.fits
    omega
  · exact hranked.order_eq_empty
  · exact hranked.next_eq_zero
  · intro unbounded key e he
    have := hranked.placed_iff key e he
    simpa [unbounded] using this
  · exact h.untouched

/-- In every state that a run of sections leads to, whoever they belong to and whatever the clock
shows, the indices agree with the entries. -/
theorem indicesAgree_of_reachable (capacity batch : Nat) (sweeper : Option Nat)
    (run : List (Section α β × Instant)) :
    ({ (empty capacity batch : Cache α β) with sweeper }.enactAll run).IndicesAgree capacity := by
  have hempty : { (empty capacity batch : Cache α β) with sweeper }.Consistent :=
    ⟨Store.consistent_empty capacity, fun _ => rfl⟩
  have hagree := (hempty.enactAll run).indicesAgree
  rwa [capacity_enactAll hempty run] at hagree

/-- A key is written twice, is hit, and expires before a sweep; then a caller marks the cache as
closed, and a write comes too late. -/
theorem indicesAgree_of_busy_run :
    let run : List (Section Nat Nat × Instant) :=
      [(.perform (.set 1 (some 10) .forever), .clamp 0),
        (.perform (.setAll [(2, some 20), (2, some 21)] (.ofMillis 5)), .clamp 1),
        (.look ⟨.getOrSet, 2, .forever⟩, .clamp 3), (.sweepBatch .asListed, .clamp 9),
        (.finish ⟨.getOrSetLocked, 3, .ofSeconds 1⟩ (.ok (some 30)) (.clamp 8), .clamp 7),
        (.shut, .clamp 9), (.perform (.remove [3]), .clamp 9)]
    let c := { (empty 2 1 : Cache Nat Nat) with sweeper := some 0 }.enactAll run
    c.store.entries.keys = [1, 3] ∧ c.store.recency.order.toList = [(0, 1), (4, 3)] ∧
      c.IndicesAgree 2 :=
  ⟨by decide +kernel, by decide +kernel, indicesAgree_of_reachable 2 1 (some 0) _⟩

end Cache

end ExpiringCache
