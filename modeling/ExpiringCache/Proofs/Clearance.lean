import ExpiringCache.Proofs.Sweeping
import ExpiringCache.Proofs.Views

/-!
# What a sweep leaves

A sweep goes on for as long as its batches are full. How large a batch is, and which keys of one
bucket go first, decides what each batch takes, but not what is left in the end.

1. **What is ahead** (`Deadlines.ahead`): the index without the deadlines that have come.
2. **Entries decide** (`Store.Indexed.ext`): two stores with the same entries, capacity, counters
   and next position are the same, if their indices fit.
3. **Live entries only** (`Store.onlyLive`): the store without what is expired. A purge, with
   whatever limit, does not change it (`Indexed.onlyLive_purgeDue`).
4. **Sweeps** (`Cache.Sweeps`): batches one after the other, each with an arrangement of its own.
   They come to an end (`not_forall_fullBatch`), and leave the live entries only
   (`Sweeps.eq_cleared`).
5. **Any batches** (`Cache.Clearance`): in every open state, for every size of batches, and what one
   batch may do where others come between.
-/

namespace ExpiringCache

variable {α β : Type} [Ord α] [Std.TransOrd α]

/-! ## Deadlines -/

namespace Deadlines

/-- The deadlines that have not come at `now`. -/
def ahead (d : Deadlines α) (now : Instant) : Deadlines α where
  buckets := d.buckets.filter fun t _ => decide (now < t)
  count := d.count - d.countDue now

variable [Std.LawfulEqOrd α] {d : Deadlines α} {key : α} {t now : Instant}

omit [Std.LawfulEqOrd α] in
theorem holds_ahead : (d.ahead now).Holds key t ↔ d.Holds key t ∧ now < t := by
  simp only [Holds, ahead, Std.ExtTreeMap.getElem?_filter', Option.filter_eq_some_iff,
    decide_eq_true_eq]
  constructor
  · rintro ⟨bucket, ⟨hb, ht⟩, hk⟩
    exact ⟨⟨bucket, hb, hk⟩, ht⟩
  · rintro ⟨⟨bucket, hb, hk⟩, ht⟩
    exact ⟨bucket, ⟨hb, ht⟩, hk⟩

/-- The deadlines that have come and those that have not are all there are. -/
theorem pairs_perm_ahead (d : Deadlines α) (now : Instant) :
    d.pairs.Perm (d.due .asListed now ++ (d.ahead now).pairs) := by
  refine (List.perm_ext_iff_of_nodup (nodup_pairs d) ?_).mpr ?_
  · refine (nodup_due d .asListed now).append (nodup_pairs _) ?_
    rintro ⟨t, key⟩ hdue hahead
    have hle := (mem_due.mp hdue).2
    have hlt := (holds_ahead.mp (mem_pairs.mp hahead)).2
    rw [Instant.le_def] at hle
    rw [Instant.lt_def] at hlt
    omega
  · rintro ⟨t, key⟩
    rw [List.mem_append, mem_pairs, mem_due, mem_pairs, holds_ahead, ← and_or_left]
    refine (and_iff_left ?_).symm
    rw [Instant.le_def, Instant.lt_def]
    omega

theorem WellFormed.ahead (h : d.WellFormed) (now : Instant) : (d.ahead now).WellFormed where
  bucket_ne_empty t bucket hb := by
    simp only [Deadlines.ahead, Std.ExtTreeMap.getElem?_filter', Option.filter_eq_some_iff] at hb
    exact h.bucket_ne_empty t bucket hb.1
  count_eq := by
    have hlength := (d.pairs_perm_ahead now).length_eq
    rw [List.length_append, length_due, ← h.count_eq] at hlength
    rw [Deadlines.ahead, hlength]
    exact Nat.add_sub_cancel_left ..

theorem countDue_ahead (d : Deadlines α) (now : Instant) : (d.ahead now).countDue now = 0 := by
  rw [← length_due _ .asListed, List.length_eq_zero_iff, List.eq_nil_iff_forall_not_mem]
  rintro ⟨t, key⟩ hdue
  obtain ⟨hahead, hle⟩ := mem_due.mp hdue
  have hlt := (holds_ahead.mp hahead).2
  rw [Instant.le_def] at hle
  rw [Instant.lt_def] at hlt
  omega

end Deadlines

/-! ## Stores -/

namespace Store

/-- The store without what is expired at `now`. Entries keep their positions, and no position is
given back. -/
def onlyLive (s : Store α β) (now : Instant) : Store α β where
  entries := s.entries.filter fun _ e => e.isLiveAt now
  deadlines := s.deadlines.ahead now
  recency :=
    { s.recency with order := s.recency.order.filter fun _ key => (s.live? key now).isSome }
  tally := s.tally

variable [Std.LawfulEqOrd α] {s t : Store α β} {key : α} {now : Instant}

omit [Std.LawfulEqOrd α] in
/-- The indices of a store say what its entries say, so two stores are the same if their entries,
their counters, their capacity and the position to be given next are. -/
theorem Indexed.ext [Std.LawfulEqOrd α] (h : s.Indexed) (ht : t.Indexed)
    (hentries : s.entries = t.entries)
    (hcapacity : s.recency.capacity = t.recency.capacity)
    (hnext : s.recency.next = t.recency.next) (htally : s.tally = t.tally) : s = t := by
  have hdeadlines : s.deadlines = t.deadlines := by
    refine h.dated.wellFormed.ext ht.dated.wellFormed fun key u => ?_
    rw [h.dated.holds_iff, ht.dated.holds_iff, hentries]
  have hrecency : s.recency = t.recency := by
    refine Recency.ext hcapacity ?_ hnext
    apply Std.ExtTreeMap.ext_getElem?
    intro p
    apply Option.ext
    intro key
    rw [h.ranked.order_iff, ht.ranked.order_iff, hentries]
  cases s
  cases t
  simp only at hentries hdeadlines hrecency htally
  rw [hentries, hdeadlines, hrecency, htally]

theorem getElem?_onlyLive : (s.onlyLive now).entries[key]? = s.live? key now := by
  rw [onlyLive, Std.ExtTreeMap.getElem?_filter', live?]

omit [Std.LawfulEqOrd α] in
theorem getElem?_order_onlyLive {p : Nat} :
    (s.onlyLive now).recency.order[p]? = some key ↔
      s.recency.order[p]? = some key ∧ (s.live? key now).isSome = true := by
  simp [onlyLive, Option.filter_eq_some_iff]

theorem Indexed.onlyLive (h : s.Indexed) (now : Instant) : (s.onlyLive now).Indexed where
  dated :=
    { wellFormed := h.dated.wellFormed.ahead now
      holds_iff := fun key t => by
        rw [getElem?_onlyLive, Store.onlyLive, Deadlines.holds_ahead, h.dated.holds_iff,
          Option.bind_eq_some_iff, Option.bind_eq_some_iff]
        constructor
        · rintro ⟨⟨e, he, hdeadline⟩, hahead⟩
          refine ⟨e, live?_eq_some_iff.mpr ⟨he, Entry.isLiveAt_iff.mpr fun u hu => ?_⟩, hdeadline⟩
          rwa [← Option.some.inj (hdeadline.symm.trans hu)]
        · rintro ⟨e, hlive, hdeadline⟩
          obtain ⟨he, hahead⟩ := live?_eq_some_iff.mp hlive
          exact ⟨⟨e, he, hdeadline⟩, Entry.isLiveAt_iff.mp hahead t hdeadline⟩ }
  ranked :=
    { order_iff := fun p key => by
        rw [getElem?_onlyLive, Option.bind_eq_some_iff, getElem?_order_onlyLive, h.ranked.order_iff,
          Option.bind_eq_some_iff]
        constructor
        · rintro ⟨⟨e, he, hpos⟩, hlive⟩
          obtain ⟨f, hf⟩ := Option.isSome_iff_exists.mp hlive
          have heq := (live?_eq_some_iff.mp hf).1
          rw [he, Option.some.injEq] at heq
          exact ⟨f, hf, heq ▸ hpos⟩
        · rintro ⟨e, hlive, hpos⟩
          exact ⟨⟨e, (live?_eq_some_iff.mp hlive).1, hpos⟩, by rw [hlive]; rfl⟩
      placed_iff := fun key e he => by
        rw [getElem?_onlyLive] at he
        exact h.ranked.placed_iff key e (live?_eq_some_iff.mp he).1
      lt_next := fun p key hp =>
        h.ranked.lt_next p key (getElem?_order_onlyLive.mp hp).1
      next_eq_zero := h.ranked.next_eq_zero }

/-- As many entries go as deadlines are due. -/
theorem Indexed.size_onlyLive (h : s.Indexed) (now : Instant) :
    s.deadlines.countDue now + (s.onlyLive now).entries.size = s.entries.size := by
  have hsplit := List.length_eq_length_filter_add (l := s.entries.toList) (·.2.isExpiredAt now)
  rw [h.countDue_eq, Store.onlyLive, ← Std.ExtTreeMap.length_toList,
    ← Std.ExtTreeMap.length_toList, Std.ExtTreeMap.toList_filter, hsplit]
  simp [Entry.isLiveAt]

/-- A purge does not change what is left in the end, but for the counter. -/
theorem Indexed.onlyLive_purgeDue (h : s.Indexed) (order : Arrangement α) (now : Instant)
    (limit : Option Nat) :
    (s.purgeDue order now limit).2.onlyLive now =
      { s.onlyLive now with tally := s.tally.expire (s.purgeDue order now limit).1 } := by
  refine ((h.purgeDue order now limit).onlyLive now).ext ((h.onlyLive now).tallied _) ?_ ?_ ?_ ?_
  · apply Std.ExtTreeMap.ext_getElem?
    intro key
    exact getElem?_onlyLive.trans
      ((h.live?_purgeDue order (Instant.le_refl now) limit key).trans getElem?_onlyLive.symm)
  · exact capacity_purgeDue order now limit
  · exact next_purgeDue order now limit
  · exact h.tally_purgeDue order now limit

/-- Where nothing is due, all entries are live. -/
theorem Indexed.onlyLive_of_countDue_eq_zero (h : s.Indexed)
    (hdue : s.deadlines.countDue now = 0) : s.onlyLive now = s := by
  refine (h.onlyLive now).ext h ?_ rfl rfl rfl
  apply Std.ExtTreeMap.ext_getElem?
  intro key
  rw [h.countDue_eq, List.length_eq_zero_iff, List.filter_eq_nil_iff] at hdue
  rw [getElem?_onlyLive, live?]
  cases he : s.entries[key]? with
  | none => rfl
  | some e =>
    have hfresh := hdue (key, e) (Std.ExtTreeMap.mem_toList_iff_getElem?_eq_some.mpr he)
    have hlive : e.isLiveAt now = true := by simpa [Entry.isLiveAt] using hfresh
    simp [Option.filter, hlive]

end Store

/-! ## Sweeps -/

namespace Cache

/-- The cache with another size of batches. -/
def withBatch (c : Cache α β) (batch : Nat) (batch_pos : 0 < batch) : Cache α β :=
  { c with batch, batch_pos }

/-- A sweep at `now`, whose batches may each go through the buckets in another order: batches while
they are full, and one that is not. It removes as many entries as its batches take deadlines. -/
inductive Sweeps (now : Instant) : Cache α β → Nat → Cache α β → Prop
  | last {c : Cache α β} (order : Arrangement α) {n : Nat}
    (htaken : (c.sweepBatch order now).answer = some n) (hlast : n < c.batch) :
    Sweeps now c n (c.sweepBatch order now).cache
  | more {c d : Cache α β} (order : Arrangement α) {n rest : Nat}
    (htaken : (c.sweepBatch order now).answer = some n) (hfull : c.batch ≤ n)
    (hrest : Sweeps now (c.sweepBatch order now).cache rest d) : Sweeps now c (n + rest) d

/-- A full batch leads from one cache to the other. -/
def FullBatch (now : Instant) (c d : Cache α β) : Prop :=
  ∃ order n, (c.sweepBatch order now).answer = some n ∧ c.batch ≤ n ∧
    (c.sweepBatch order now).cache = d

/-- What is left in the end of a sweep that removes `n` entries. -/
def cleared (c : Cache α β) (now : Instant) (n : Nat) : Cache α β :=
  { c.settle with
    store := { c.settled.onlyLive now with tally := c.settled.tally.expire n } }

variable {c d : Cache α β} {now : Instant} {n : Nat}

/-! ### One batch -/

/-- Only an open cache answers a batch with a number. -/
theorem open_of_taken {order : Arrangement α} (h : (c.sweepBatch order now).answer = some n) :
    c.closed = false := by
  cases hopen : c.closed with
  | false => rfl
  | true => simp [sweepBatch, writing, hopen] at h

variable [Std.LawfulEqOrd α] {order : Arrangement α}

omit [Std.LawfulEqOrd α] in
/-- A batch takes what is due, up to its size. -/
theorem taken_eq (h : (c.sweepBatch order now).answer = some n) :
    n = min c.batch (c.store.deadlines.countDue now) := by
  rw [sweepBatch_of_open (open_of_taken h)] at h
  rw [← Option.some.inj h, Store.purgeDue_fst, deadlines_settled]

theorem countDue_sweepBatch (hopen : c.closed = false) (order : Arrangement α) (now : Instant) :
    (c.sweepBatch order now).cache.store.deadlines.countDue now =
      c.store.deadlines.countDue now - c.batch := by
  have hdue := Store.countDue_purgeDue (s := c.settled) order now c.batch
  rw [deadlines_settled] at hdue
  rw [sweepBatch_of_open hopen]
  exact hdue

omit [Std.LawfulEqOrd α] in
theorem settle_settle_with {s : Store α β}
    (hcapacity : s.recency.capacity = c.store.recency.capacity) :
    ({ c.settle with store := s } : Cache α β).settle = { c.settle with store := s } := by
  by_cases hcap : 0 < c.store.recency.capacity
  · rw [settle_of_bounded hcap, settle_of_bounded (by exact hcapacity ▸ hcap)]
    rfl
  · rw [settle_of_unbounded (by exact hcapacity ▸ Nat.eq_zero_of_not_pos hcap)]

omit [Std.LawfulEqOrd α] in
/-- A batch leaves nothing to be replayed. -/
theorem settle_sweepBatch (hopen : c.closed = false) (order : Arrangement α) :
    (c.sweepBatch order now).cache.settle = (c.sweepBatch order now).cache := by
  rw [sweepBatch_of_open hopen]
  exact settle_settle_with (by simp)

/-- A batch does not change what is left in the end. -/
theorem Consistent.cleared_sweepBatch (hc : c.Consistent)
    (h : (c.sweepBatch order now).answer = some n) (rest : Nat) :
    (c.sweepBatch order now).cache.cleared now rest = c.cleared now (n + rest) := by
  have hopen := open_of_taken h
  have honly := hc.settled.indexed.onlyLive_purgeDue order now (some c.batch)
  have htally := hc.settled.indexed.tally_purgeDue order now (some c.batch)
  rw [cleared, Cache.settled, settle_sweepBatch hopen]
  rw [sweepBatch_of_open hopen] at h ⊢
  have hn : (c.settled.purgeDue order now (some c.batch)).1 = n := Option.some.inj h
  simp only [honly, htally, hn, cleared]
  simp [Tally.expire, UInt64.add_assoc]

/-- Where nothing is due and nothing waits, all is done. -/
theorem Consistent.cleared_of_countDue_eq_zero (hc : c.Consistent) (now : Instant)
    (hsettle : c.settle = c) (hdue : c.store.deadlines.countDue now = 0) : c.cleared now 0 = c := by
  have honly := hc.store.indexed.onlyLive_of_countDue_eq_zero hdue
  rw [cleared, Cache.settled, hsettle, honly]
  simp [Tally.expire]

/-! ### Termination -/

/-- After a full batch less is due. -/
theorem FullBatch.countDue_lt (h : FullBatch now c d) :
    d.store.deadlines.countDue now < c.store.deadlines.countDue now := by
  obtain ⟨order, n, htaken, hfull, rfl⟩ := h
  have hpos := c.batch_pos
  have hn := taken_eq htaken
  have hdue := countDue_sweepBatch (open_of_taken htaken) order now
  omega

/-- A sweep comes to an end: full batches cannot follow each other for ever. -/
theorem not_forall_fullBatch (f : Nat → Cache α β) : ¬ ∀ i, FullBatch now (f i) (f (i + 1)) := by
  intro hfull
  have hfalls : ∀ i, (f i).store.deadlines.countDue now + i ≤
      (f 0).store.deadlines.countDue now := by
    intro i
    induction i with
    | zero => exact Nat.le_refl _
    | succ i ih =>
      have hlt := (hfull i).countDue_lt
      omega
  have hlast := hfalls ((f 0).store.deadlines.countDue now + 1)
  omega

/-- The sweep that is carried out is one of those that there may be. -/
theorem exists_sweeps_of_sweepRounds (hopen : c.closed = false) (orders : Nat → Arrangement α)
    (now : Instant) (removed : Nat) {rounds : Nat}
    (hrounds : c.store.deadlines.countDue now < rounds) :
    ∃ n d, Sweeps now c n d ∧
      sweepRounds orders now rounds removed c = ⟨d, (), [.swept (removed + n)]⟩ := by
  induction rounds generalizing c removed with
  | zero => omega
  | succ rounds ih =>
    obtain ⟨n, htaken⟩ : ∃ n, (c.sweepBatch (orders rounds) now).answer = some n :=
      ⟨_, by rw [sweepBatch_of_open hopen]⟩
    by_cases hlast : n < c.batch
    · refine ⟨n, _, .last (orders rounds) htaken hlast, ?_⟩
      simp [sweepRounds, htaken, hlast]
    · have hfull := Nat.le_of_not_lt hlast
      have hless : FullBatch now c (c.sweepBatch (orders rounds) now).cache :=
        ⟨orders rounds, n, htaken, hfull, rfl⟩
      have hdue := hless.countDue_lt
      obtain ⟨rest, d, hrest, heq⟩ := ih (c := (c.sweepBatch (orders rounds) now).cache)
        (by rw [closed_sweepBatch, hopen]) (removed + n) (by omega)
      refine ⟨n + rest, d, .more (orders rounds) htaken hfull hrest, ?_⟩
      simp only [sweepRounds, htaken, hlast, if_false, heq, Nat.add_assoc]

/-! ### What is left -/

/-- How large the batches of a sweep are, and in which order they take the keys of a bucket, makes
no difference to what is left. -/
theorem Sweeps.eq_cleared (h : Sweeps now c n d) (hc : c.Consistent) :
    n = c.store.deadlines.countDue now ∧ d = c.cleared now n := by
  induction h with
  | @last c order n htaken hlast =>
    have hn := taken_eq htaken
    have hopen := open_of_taken htaken
    have hdue := countDue_sweepBatch hopen order now
    -- the batch was not full, so nothing is due any more
    have hdone := (hc.enact (.sweepBatch order) now).cleared_of_countDue_eq_zero now
      (settle_sweepBatch hopen order) (by rw [enact]; omega)
    have hcleared := hc.cleared_sweepBatch htaken 0
    exact ⟨by omega, hdone.symm.trans hcleared⟩
  | @more c d order n rest htaken hfull hrest ih =>
    have hn := taken_eq htaken
    have hdue := countDue_sweepBatch (open_of_taken htaken) order now
    obtain ⟨hrest, rfl⟩ := ih (hc.enact (.sweepBatch order) now)
    exact ⟨by omega, hc.cleared_sweepBatch htaken rest⟩

theorem Sweeps.consistent (h : Sweeps now c n d) (hc : c.Consistent) : d.Consistent := by
  induction h with
  | last order => exact hc.enact (.sweepBatch order) now
  | more order _ _ _ ih => exact ih (hc.enact (.sweepBatch order) now)

omit [Std.LawfulEqOrd α] in
theorem Sweeps.closed_eq (h : Sweeps now c n d) : d.closed = c.closed := by
  induction h with
  | last order => exact closed_sweepBatch order now
  | more order _ _ _ ih => exact ih.trans (closed_sweepBatch order now)

/-- After a sweep there is nothing to sweep. -/
theorem Sweeps.cleared_eq_self (h : Sweeps now c n d) (hc : c.Consistent) :
    d.store.deadlines.countDue now = 0 ∧ d.cleared now 0 = d := by
  have hd := h.consistent hc
  obtain ⟨-, rfl⟩ := h.eq_cleared hc
  have hdue : (c.cleared now n).store.deadlines.countDue now = 0 :=
    Deadlines.countDue_ahead _ now
  have hsettle : (c.cleared now n).settle = c.cleared now n :=
    settle_settle_with (by simp [Store.onlyLive])
  exact ⟨hdue, hd.cleared_of_countDue_eq_zero now hsettle hdue⟩

/-! ### Batches between others -/

/-- What one batch may do, whatever came before it: it removes up to `batch` entries, and none that
is live. -/
structure Gentle (d t : Cache α β) (later : Instant) (batch : Nat) : Prop where
  size_le : t.store.entries.size ≤ d.store.entries.size
  le_size : d.store.entries.size ≤ t.store.entries.size + batch
  row : ∀ key, t.store.contents[key]? = d.store.contents[key]? ∨
    t.store.contents[key]? = none ∧ d.store.live? key later = none

theorem Consistent.gentle (hd : d.Consistent) (order : Arrangement α) (later : Instant) :
    Gentle d (d.sweepBatch order later).cache later d.batch := by
  cases hopen : d.closed with
  | true =>
    rw [show d.sweepBatch order later = ⟨d, none, []⟩ by simp [sweepBatch, writing, hopen]]
    exact ⟨Nat.le_refl _, Nat.le_add_right _ _, fun _ => .inl rfl⟩
  | false =>
    have hsize := hd.settled.indexed.size_purgeDue order later (some d.batch)
    have hfst := d.settled.purgeDue_fst order later d.batch
    have hsettled : d.settled.entries.size = d.store.entries.size :=
      Store.size_eq_of_contents contents_settled
    rw [sweepBatch_of_open hopen]
    constructor
    · show (d.settled.purgeDue order later (some d.batch)).2.entries.size ≤ _
      omega
    · show _ ≤ (d.settled.purgeDue order later (some d.batch)).2.entries.size + _
      omega
    · intro key
      rw [← contents_settled (c := d), Store.getElem?_contents, Store.getElem?_contents]
      rcases hd.settled.indexed.getElem?_purgeDue order later (some d.batch) key with
        hsame | ⟨hgone, hdead⟩
      · exact .inl (congrArg _ hsame)
      · refine .inr ⟨congrArg _ hgone, ?_⟩
        rw [← Option.isNone_iff_eq_none, ← Option.not_isSome, ← isSome_live?_settled, hdead]
        rfl

/-! ### Any size of batches -/

omit [Std.LawfulEqOrd α] in
theorem settle_withBatch (batch : Nat) (hbatch : 0 < batch) :
    (c.withBatch batch hbatch).settle = c.settle.withBatch batch hbatch := by
  by_cases hcap : 0 < c.store.recency.capacity
  · rw [settle_of_bounded hcap, settle_of_bounded (by exact hcap)]
    rfl
  · rw [settle_of_unbounded (c := c) (by omega),
      settle_of_unbounded (by exact Nat.eq_zero_of_not_pos hcap)]

omit [Std.LawfulEqOrd α] in
theorem cleared_withBatch (batch : Nat) (hbatch : 0 < batch) :
    (c.withBatch batch hbatch).cleared now n = (c.cleared now n).withBatch batch hbatch := by
  rw [cleared, Cache.settled, settle_withBatch]
  rfl

/-- What is true of the sweeps of `c` at `now` in batches of up to `batch` entries. -/
structure Clearance (c : Cache α β) (now : Instant) (batch : Nat) (hbatch : 0 < batch) : Prop where
  /-- Full batches do not follow each other for ever. -/
  ends : ∀ f : Nat → Cache α β, f 0 = c.withBatch batch hbatch →
    ¬ ∀ i, FullBatch now (f i) (f (i + 1))
  /-- The sweep that is carried out is one of those that there may be, and tells the number. -/
  carried_out : ∀ orders, ∃ n d, Sweeps now (c.withBatch batch hbatch) n d ∧
    (c.withBatch batch hbatch).sweep orders now = ⟨d, (), [.swept n]⟩
  /-- Every sweep leaves what is live and counts what it removes, whatever its batches are. -/
  leaves : ∀ n d, Sweeps now (c.withBatch batch hbatch) n d →
    n = c.store.deadlines.countDue now ∧ d = (c.cleared now n).withBatch batch hbatch ∧
      n + d.store.entries.size = c.store.entries.size ∧ d.store.deadlines.countDue now = 0
  /-- Nothing is left to another sweep. -/
  again : ∀ n d, Sweeps now (c.withBatch batch hbatch) n d →
    (∀ m e, Sweeps now d m e → m = 0 ∧ e = d) ∧
      ∀ orders, d.sweep orders now = ⟨d, (), [.swept 0]⟩
  /-- Where others come between the batches, no batch removes more, or an entry that is live. -/
  between : ∀ (run : List (Section α β × Instant)) (order : Arrangement α) (later : Instant),
    Gentle ((c.withBatch batch hbatch).enactAll run)
      (((c.withBatch batch hbatch).enactAll run).sweepBatch order later).cache later batch

theorem Consistent.clearance (hc : c.Consistent) (hopen : c.closed = false) (now : Instant)
    {batch : Nat} (hbatch : 0 < batch) : c.Clearance now batch hbatch := by
  have hwith : (c.withBatch batch hbatch).Consistent := ⟨hc.store, hc.untouched⟩
  constructor
  · exact fun f _ => not_forall_fullBatch f
  · intro orders
    obtain ⟨n, d, hsweeps, heq⟩ := exists_sweeps_of_sweepRounds
      (c := c.withBatch batch hbatch) hopen orders now 0 (Nat.lt_succ_self _)
    rw [Nat.zero_add] at heq
    exact ⟨n, d, hsweeps, heq⟩
  · intro n d hsweeps
    obtain ⟨hn, hd⟩ := hsweeps.eq_cleared hwith
    have hsize := hc.settled.indexed.size_onlyLive now
    have hsettled : c.settled.entries.size = c.store.entries.size :=
      Store.size_eq_of_contents contents_settled
    rw [deadlines_settled] at hsize
    rw [cleared_withBatch] at hd
    refine ⟨hn, hd, ?_, (hsweeps.cleared_eq_self hwith).1⟩
    rw [hd, hn, ← hsettled]
    exact hsize
  · intro n d hsweeps
    obtain ⟨hdue, hcleared⟩ := hsweeps.cleared_eq_self hwith
    have hagain : ∀ m e, Sweeps now d m e → m = 0 ∧ e = d := by
      intro m e hmore
      obtain ⟨hm, rfl⟩ := hmore.eq_cleared (hsweeps.consistent hwith)
      rw [hdue] at hm
      rw [hm]
      exact ⟨rfl, hcleared⟩
    refine ⟨hagain, fun orders => ?_⟩
    obtain ⟨m, e, hmore, heq⟩ := exists_sweeps_of_sweepRounds (hsweeps.closed_eq.trans hopen)
      orders now 0 (Nat.lt_succ_self _)
    obtain ⟨rfl, rfl⟩ := hagain m e hmore
    exact heq
  · intro run order later
    have hgentle := (hwith.enactAll run).gentle order later
    rwa [batch_enactAll] at hgentle

/-- In every open state that sections lead to, whatever the size of the batches. -/
theorem clearance_of_reachable (capacity batch : Nat) (sweeper : Option Nat)
    (past : List (Section α β × Instant))
    (hopen : ({ (empty capacity batch : Cache α β) with sweeper }.enactAll past).closed = false)
    (now : Instant) {size : Nat} (hsize : 0 < size) :
    ({ (empty capacity batch : Cache α β) with sweeper }.enactAll past).Clearance now size
      hsize := by
  exact ((consistent_start capacity batch sweeper).enactAll past).clearance hopen now hsize

/-- Two of three entries are due, in one bucket, and the third was hit; batches of one and of two
leave the same. -/
theorem clearance_of_one_bucket :
    let past : List (Section Nat Nat × Instant) :=
      [(.perform (.setAll [(1, some 10), (2, some 20), (3, some 30)] (.ofMillis 5)), .clamp 0),
        (.perform (.setLifetime 1 (.ofMillis 9)), .clamp 2),
        (.look ⟨.getOrSet, 1, .forever⟩, .clamp 3)]
    let c := { (empty 3 7 : Cache Nat Nat) with sweeper := some 0 }.enactAll past
    c.closed = false ∧
      ((c.withBatch 1 Nat.one_pos).sweep (fun _ => .asListed) (.clamp 6)).events = [.swept 2] ∧
      ((c.withBatch 2 Nat.two_pos).sweep (fun _ => .asListed)
        (.clamp 6)).cache.store.recency.toList = [1] ∧
      c.Clearance (.clamp 6) 1 Nat.one_pos ∧ c.Clearance (.clamp 6) 2 Nat.two_pos := by
  intro past c
  have hopen : c.closed = false := by decide +kernel
  refine ⟨hopen, by decide +kernel, by decide +kernel, ?_, ?_⟩
  · exact clearance_of_reachable 3 7 (some 0) past hopen (.clamp 6) Nat.one_pos
  · exact clearance_of_reachable 3 7 (some 0) past hopen (.clamp 6) Nat.two_pos

end Cache

end ExpiringCache
