import ExpiringCache.Proofs.Settled

/-!
# Whole sweeps

1. **A sweep is a run** of sections that each take a batch (`sweepRounds_eq_enactAll`), so that what
   runs keep, sweeps keep.
2. **A sweep is complete** (`getElem?_sweep`): with nobody coming between, it leaves the entries
   that are live and no other.
-/

namespace ExpiringCache

namespace Cache

variable {α β : Type} [Ord α] [Std.TransOrd α] {c : Cache α β} {now : Instant}

/-- The sections of a sweep, at most `rounds` of them. -/
def sweepSections (orders : Nat → Arrangement α) (now : Instant) :
    Nat → Cache α β → List (Section α β × Instant)
  | 0, _ => []
  | rounds + 1, c =>
    let turn := c.sweepBatch (orders rounds) now
    (.sweepBatch (orders rounds), now) ::
      match turn.answer with
      | none => []
      | some taken =>
        if taken < c.batch then [] else sweepSections orders now rounds turn.cache

/-- A sweep goes through its batches one after the other and does nothing else. -/
theorem sweepRounds_eq_enactAll (orders : Nat → Arrangement α) (now : Instant)
    (rounds removed : Nat) (c : Cache α β) :
    (sweepRounds orders now rounds removed c).cache =
      c.enactAll (sweepSections orders now rounds c) := by
  induction rounds generalizing removed c with
  | zero => rfl
  | succ rounds ih =>
    cases hanswer : (c.sweepBatch (orders rounds) now).answer with
    | none => simp [sweepRounds, sweepSections, hanswer, enact]
    | some taken =>
      by_cases hlast : taken < c.batch
      · simp [sweepRounds, sweepSections, hanswer, hlast, enact]
      · simp [sweepRounds, sweepSections, hanswer, hlast, ih, enact]

/-- All sections of a sweep take batches. -/
theorem sweepBatch_of_mem_sweepSections {orders : Nat → Arrangement α} {rounds : Nat}
    {step : Section α β × Instant} (h : step ∈ sweepSections orders now rounds c) :
    ∃ order, step = (.sweepBatch order, now) := by
  induction rounds generalizing c with
  | zero => cases h
  | succ rounds ih =>
    simp only [sweepSections, List.mem_cons] at h
    rcases h with rfl | h
    · exact ⟨orders rounds, rfl⟩
    · split at h
      · cases h
      · split at h
        · cases h
        · exact ih h

@[simp] theorem closed_sweepBatch (order : Arrangement α) (now : Instant) :
    (c.sweepBatch order now).cache.closed = c.closed := by
  unfold sweepBatch writing
  split
  · rfl
  · exact closed_settle

theorem closed_sweepRounds (orders : Nat → Arrangement α) (now : Instant) (rounds removed : Nat)
    (c : Cache α β) : (sweepRounds orders now rounds removed c).cache.closed = c.closed := by
  induction rounds generalizing removed c with
  | zero => rfl
  | succ rounds ih =>
    unfold sweepRounds
    cases hanswer : (c.sweepBatch (orders rounds) now).answer with
    | none => simp [hanswer]
    | some taken =>
      by_cases hlast : taken < c.batch
      · simp [hanswer, hlast]
      · simp [hanswer, hlast, ih]

/-- Nothing is swept once the cache is closed. -/
theorem sweep_of_closed (hclosed : c.closed = true) (orders : Nat → Arrangement α) :
    (c.sweep orders now).cache = c := by
  simp [sweep, sweepRounds, sweepBatch, writing, hclosed]

/-! ## Completeness -/

theorem sweepBatch_of_open (hopen : c.closed = false) (order : Arrangement α) (now : Instant) :
    c.sweepBatch order now =
      ⟨{ c.settle with store := (c.settled.purgeDue order now (some c.batch)).2 },
        some (c.settled.purgeDue order now (some c.batch)).1, []⟩ := by
  simp [sweepBatch, writing, hopen, settled]

theorem deadlines_settled : c.settled.deadlines = c.store.deadlines := by
  by_cases hcap : c.store.recency.capacity = 0
  · rw [settled_of_unbounded hcap]
  · rw [settled_of_bounded (by omega), Store.deadlines_touchAll]

variable [Std.LawfulEqOrd α]

/-- A batch that is not full has taken all that was due; after a full one there is less. -/
theorem getElem?_sweepRounds (h : c.Consistent) (hopen : c.closed = false)
    (orders : Nat → Arrangement α) (now : Instant) (removed : Nat) {rounds : Nat}
    (hrounds : c.store.deadlines.countDue now < rounds) (k : α) :
    (sweepRounds orders now rounds removed c).cache.store.entries[k]? = c.settled.live? k now := by
  induction rounds generalizing c removed with
  | zero => omega
  | succ rounds ih =>
    have hbatch := c.batch_pos
    have hfst := c.settled.purgeDue_fst (orders rounds) now c.batch
    rw [deadlines_settled] at hfst
    unfold sweepRounds
    rw [sweepBatch_of_open hopen]
    by_cases hlast : (c.settled.purgeDue (orders rounds) now (some c.batch)).1 < c.batch
    · -- fewer than a batch were due, so this one took them all
      simp only [hlast, if_true]
      have hdue : c.settled.deadlines.countDue now ≤ c.batch := by
        rw [deadlines_settled]
        omega
      rw [Store.purgeDue_of_countDue_le hdue]
      exact h.settled.indexed.getElem?_purgeAll _ now k
    · -- after a full batch there is less to do than there are rounds left
      simp only [hlast, if_false]
      have hnext : { c.settle with
          store := (c.settled.purgeDue (orders rounds) now (some c.batch)).2 }.Consistent := by
        have henact := h.enact (.sweepBatch (orders rounds)) now
        rwa [enact, sweepBatch_of_open hopen] at henact
      have hdue := Store.countDue_purgeDue (s := c.settled) (orders rounds) now c.batch
      rw [deadlines_settled] at hdue
      rw [ih hnext (closed_settle.trans hopen) _ (by simp only [hdue]; omega),
        settled_of_untouched (by exact untouched_settle h.untouched)]
      exact h.settled.indexed.live?_purgeDue _ (Instant.le_refl now) _ k

/-- A sweep of an open cache leaves the live entries and no other. -/
theorem getElem?_sweep (h : c.Consistent) (hopen : c.closed = false)
    (orders : Nat → Arrangement α) (now : Instant) (k : α) :
    (c.sweep orders now).cache.store.entries[k]? = c.settled.live? k now :=
  getElem?_sweepRounds h hopen orders now 0 (Nat.lt_succ_self _) k

end Cache

end ExpiringCache
