import ExpiringCache.Proofs.Nested
import ExpiringCache.Proofs.Unobservable

/-!
# A larger cache answers more

Two caches, one of them at least as large as the other, are asked the same. Whatever is live in the
smaller one is live in the larger one too, with the same value and the same deadline, so no lookup
hits in the smaller one alone. This is not so for writes on condition that a key is not live: the
smaller cache, having lost the key, would store what the larger one refuses.

1. **What is asked** (`Operation.isPlain`, `Stage.Twin`).
2. **Operations on nested stores** (`Store.deeds_cases`): on both they have the same deeds, or on
   the larger one they edit a key that is not live in the smaller one.
3. **Stages** (`Covering.pass`): a stage of each run keeps the settled stores nested.
4. **Runs** (`covers_of_larger`).
-/

namespace ExpiringCache

variable {α β : Type}

/-- An operation that neither stores a value on condition that none is live, nor closes the
cache. -/
def Operation.isPlain : Operation α β → Bool
  | .setIfAbsent .. | .getOrSet .. | .close => false
  | .set .. | .setAll .. | .get _ | .contains _ | .timeLeft _ | .remove _ | .update .. |
    .setLifetime .. | .size | .pairs | .keys | .values | .clear => true

/-- The same plain operation at the same moment, or sweeps at the same moment. A sweep of one cache
may come upon the keys that expire together in another order, and go on in batches of another
size. -/
inductive Stage.Twin : Stage α β → Stage α β → Prop
  | perform (op : Operation α β) (hplain : op.isPlain = true) (now : Instant) :
    Twin (.errand (.perform op now)) (.errand (.perform op now))
  | sweep (orders orders' : Nat → Arrangement α) (now : Instant) :
    Twin (.errand (.sweep orders now)) (.errand (.sweep orders' now))
  | batch (order order' : Arrangement α) (now : Instant) :
    Twin (.batch order now) (.batch order' now)

variable [Ord α] [Std.TransOrd α]

/-- A plain operation counts a lookup, writes, clears or does nothing, whatever the cache holds. -/
theorem Operation.plain_cases {op : Operation α β} (hplain : op.isPlain = true) :
    (∃ key, ∀ (c : Cache α β) (now : Instant), op.effect c now = c.counts key now) ∨
      (∀ (c : Cache α β) (now : Instant), op.effect c now = c.writes (op.deeds · now)) ∨
      (∀ (c : Cache α β) (now : Instant), op.effect c now = .clear) ∨
      ∀ (c : Cache α β) (now : Instant), op.effect c now = .idle := by
  cases op with
  | get key => exact .inl ⟨key, fun _ _ => rfl⟩
  | set | setAll | remove | update | setLifetime => exact .inr (.inl fun _ _ => rfl)
  | clear => exact .inr (.inr (.inl fun _ _ => rfl))
  | contains | timeLeft | size | pairs | keys | values => exact .inr (.inr (.inr fun _ _ => rfl))
  | setIfAbsent | getOrSet | close => cases hplain

/-! ## Operations on nested stores -/

namespace Store

variable [Std.LawfulEqOrd α] {s t : Store α β} {now : Instant} {key : α}

/-- The entry that answers for a key in the first store is also in the second, but for its
position. -/
theorem Included.live?_of_live (h : Included now s t) {e : Entry β}
    (he : s.live? key now = some e) : ∃ f, t.live? key now = some f ∧ f.content = e.content := by
  have hrow := h key e.content (by rw [live?_contents, he]; rfl)
  rwa [live?_contents, Option.map_eq_some_iff] at hrow

/-- A plain operation has the same deeds on both stores, unless it edits a key that is live in the
second one alone. -/
theorem deeds_cases (h : Included now s t) {op : Operation α β} (hplain : op.isPlain = true) :
    op.deeds s now = op.deeds t now ∨
      op.deeds s now = [] ∧ ∃ deed key edit, op.deeds t now = [deed] ∧
        deed.edit? now = some (key, edit) ∧ s.live? key now = none := by
  cases op with
  | update key value =>
    simp only [Operation.deeds]
    cases hs : s.live? key now with
    | some e =>
      obtain ⟨f, hf, -⟩ := h.live?_of_live hs
      exact .inl (by simp [hf])
    | none =>
      cases ht : t.live? key now with
      | none => exact .inl rfl
      | some f => cases value <;> exact .inr ⟨rfl, _, key, _, rfl, rfl, hs⟩
  | setLifetime key lifetime =>
    simp only [Operation.deeds]
    cases hs : s.live? key now with
    | some e =>
      obtain ⟨f, hf, hsame⟩ := h.live?_of_live hs
      exact .inl (by simp only [hf, Entry.timeLeftAt_of_content hsame])
    | none =>
      cases ht : t.live? key now with
      | none => exact .inl rfl
      | some f =>
        cases hleft : f.timeLeftAt now with
        | error fault => exact .inl (by simp [hleft])
        | ok left =>
          by_cases hl : lifetime.isStorable = true
          · exact .inr ⟨rfl, .extend key lifetime now, key, _, by simp [hleft, hl], rfl, hs⟩
          · exact .inr ⟨rfl, .remove key, key, _, by simp [hleft, hl], rfl, hs⟩
  | setIfAbsent | getOrSet => cases hplain
  | _ => exact .inl rfl

/-- A deed may edit the second store alone at a key that is not live in the first. -/
theorem Nested.after_right (h : Nested now s t) (hs : s.Consistent) (ht : t.Consistent)
    {deed : Deed α β} {edit : β × Option Instant → Option (β × Option Instant)}
    (hnow : deed.HappensAt now) (hedit : deed.edit? now = some (key, edit))
    (hdead : s.live? key now = none) : Nested now s (t.after deed) :=
  h.edit_right hs.indexed ht.indexed hdead (ht.edits hnow hedit)

/-- What a plain operation does in a write section keeps stores nested. -/
theorem Nested.afterAll_deeds (h : Nested now s t) (hs : s.Consistent) (ht : t.Consistent)
    {op : Operation α β} (hplain : op.isPlain = true) :
    Nested now (s.afterAll (op.deeds s now)) (t.afterAll (op.deeds t now)) := by
  rcases deeds_cases h.included hplain with hsame | ⟨hnone, deed, key, edit, hone, hedit, hdead⟩
  · rw [hsame]
    exact h.afterAll hs ht fun deed => op.happensAt_deeds
  · have hnow : deed.HappensAt now := op.happensAt_deeds (s := t) (by simp [hone])
    rw [hnone, hone]
    exact h.after_right hs ht hnow hedit hdead

end Store

namespace Cache

variable {past past' : List (Effect α β)} {now later : Instant} {c d : Cache α β}
  {effect effect' : Effect α β}

/-- What came before is `past` for the first cache and `past'` for the second. As long as no touches
were lost, the settled stores are nested; touches that were lost do not show before the next write
section. -/
structure Covering (past past' : List (Effect α β)) (now : Instant) (c d : Cache α β) : Prop where
  left : c.Consistent
  right : d.Consistent
  left_open : c.closed = false
  right_open : d.closed = false
  left_waiting : Waiting past c
  right_waiting : Waiting past' d
  included : Store.Included now c.store d.store
  nested : CalmThroughout past → CalmThroughout past' → Store.Nested now c.settled d.settled

/-- Everything that is live in `c` is live in `d`, and every lookup that hits in `c` finds the same
value in `d`. -/
structure Covers (now : Instant) (c d : Cache α β) : Prop where
  live : ∀ key e, c.store.live? key now = some e →
    ∃ f, d.store.live? key now = some f ∧ f.value = e.value ∧ f.deadline = e.deadline
  get : ∀ key v, (c.perform (.get key) now).answer = .ok (.value (some v)) →
    (d.perform (.get key) now).answer = .ok (.value (some v))

theorem covering_empty {small large : Nat} (hsmall : 0 < small) (hle : small ≤ large ∨ large = 0)
    (batch batch' : Nat) (now : Instant) :
    Covering [] [] now (empty small batch : Cache α β) (empty large batch') := by
  have hnested : Store.Nested now (.empty small : Store α β) (.empty large) :=
    Store.nested_of_no_entries rfl rfl hsmall hle now
  refine ⟨consistent_empty small batch, consistent_empty large batch', rfl, rfl,
    waiting_of_untouched rfl [], waiting_of_untouched rfl [], hnested.included, fun _ _ => ?_⟩
  rw [settled_of_untouched rfl, settled_of_untouched rfl]
  exact hnested

variable [Std.LawfulEqOrd α]

theorem Covering.mono (h : Covering past past' now c d) (hle : now ≤ later) :
    Covering past past' later c d :=
  { h with
    included := h.included.mono hle
    nested := fun hcalm hcalm' => (h.nested hcalm hcalm').mono hle }

theorem Covering.covers (h : Covering past past' now c d) : Covers now c d := by
  have hlive : ∀ key e, c.store.live? key now = some e →
      ∃ f, d.store.live? key now = some f ∧ f.value = e.value ∧ f.deadline = e.deadline := by
    intro key e he
    obtain ⟨f, hf, hsame⟩ := h.included.live?_of_live he
    exact ⟨f, hf, congrArg Prod.fst hsame, congrArg Prod.snd hsame⟩
  refine ⟨hlive, fun key v hget => ?_⟩
  simp only [perform, Turn.map, answer_lookup, Function.comp_apply, Except.ok.injEq,
    Answer.value.injEq, Option.map_eq_some_iff] at hget ⊢
  obtain ⟨e, he, rfl⟩ := hget
  obtain ⟨f, hf, hvalue, -⟩ := hlive key e he
  exact ⟨f, hf, hvalue⟩

/-! ## One operation -/

omit [Std.LawfulEqOrd α] in
theorem deeds_writes (hopen : c.closed = false) (deeds : Store α β → List (Deed α β)) :
    (c.writes deeds).deeds = deeds c.settled := by
  simp [writes, Effect.deeds, hopen, settled]

/-- Effects that keep the settled stores nested keep one cache covering the other. -/
theorem Covering.after (h : Covering past past' now c d) (hlocks : effect.locks = effect'.locks)
    (hopen : (c.after effect).closed = false) (hopen' : (d.after effect').closed = false)
    (hcalm : Calm (past ++ [effect])) (hcalm' : Calm (past' ++ [effect']))
    (hnested : Store.Nested now c.settled d.settled →
      Store.Nested now (c.settled.afterAll effect.deeds) (d.settled.afterAll effect'.deeds)) :
    Covering (past ++ [effect]) (past' ++ [effect']) now (c.after effect) (d.after effect') := by
  have hsettled : (effect.isHit = true → c.touches.toList.length < Touches.limit) →
      (c.after effect).settled = c.settled.afterAll effect.deeds :=
    settled_after h.left.untouched (by simp [h.left_open])
  have hsettled' : (effect'.isHit = true → d.touches.toList.length < Touches.limit) →
      (d.after effect').settled = d.settled.afterAll effect'.deeds :=
    settled_after h.right.untouched (by simp [h.right_open])
  refine ⟨h.left.after effect, h.right.after effect', hopen, hopen',
    h.left_waiting.after h.left.untouched h.left_open,
    h.right_waiting.after h.right.untouched h.right_open, ?_, fun hnext hnext' => ?_⟩
  · cases hwrite : effect.locks with
    | false =>
      intro k row hrow
      rw [contents_after hwrite] at hrow
      rw [contents_after (hlocks ▸ hwrite)]
      exact h.included k row hrow
    | true =>
      -- there was room for every touch that the write sections come to replay
      have hwrite' : effect'.locks = true := hlocks ▸ hwrite
      have hincluded := (hnested (h.nested (hcalm.throughout hwrite)
        (hcalm'.throughout hwrite'))).included
      rw [← hsettled fun hhit => absurd hhit (Effect.not_isHit_of_locks hwrite),
        ← hsettled' fun hhit => absurd hhit (Effect.not_isHit_of_locks hwrite')] at hincluded
      intro k row hrow
      rw [← contents_settled] at hrow ⊢
      exact hincluded k row hrow
  · rw [hsettled (h.left_waiting.room hnext), hsettled' (h.right_waiting.room hnext')]
    exact hnested (h.nested hnext.of_append hnext'.of_append)

/-- A lookup that hits in the first cache hits in the second. -/
theorem Covering.counts (h : Covering past past' now c d) (key : α)
    (hcalm : Calm (past ++ [c.counts key now])) (hcalm' : Calm (past' ++ [d.counts key now])) :
    Covering (past ++ [c.counts key now]) (past' ++ [d.counts key now]) now
      (c.after (c.counts key now)) (d.after (d.counts key now)) := by
  have hcounts : ∀ c : Cache α β, (c.counts key now).locks = false ∧
      ((c.after (c.counts key now)).closed = c.closed) := by
    intro c
    rcases c.counts_cases key now with heq | ⟨heq, -⟩ <;> rw [heq]
    · exact ⟨rfl, rfl⟩
    · exact ⟨rfl, closed_noteHit _ key⟩
  refine h.after ((hcounts c).1.trans (hcounts d).1.symm) ((hcounts c).2.trans h.left_open)
    ((hcounts d).2.trans h.right_open) hcalm hcalm' fun hnested => ?_
  have hhit : ∀ s : Store α β, s.afterAll [.hit key] = s.after (.hit key) := fun _ => rfl
  have hdead : (c.store.live? key now).isSome = false → c.settled.live? key now = none := by
    intro hnone
    rw [← Store.isSome_live?_contents, ← contents_settled, Store.isSome_live?_contents] at hnone
    exact Option.not_isSome_iff_eq_none.mp (by simp [hnone])
  cases hc : (c.store.live? key now).isSome with
  | true =>
    simp only [Cache.counts, hc, h.included.isSome hc, if_true]
    exact hnested.after h.left.settled h.right.settled
      (show Deed.HappensAt now (.hit key) from trivial)
  | false =>
    cases hd : (d.store.live? key now).isSome with
    | true =>
      simp only [Cache.counts, hc, hd, if_true]
      have hright := hnested.after_right h.left.settled h.right.settled
        (show Deed.HappensAt now (.hit key) from trivial) rfl (hdead hc)
      exact ⟨hright.bounded, hright.included, hright.before_iff, hright.room⟩
    | false =>
      simp only [Cache.counts, hc, hd]
      exact hnested.after h.left.settled h.right.settled
        (show Deed.HappensAt now .miss from trivial)

/-- The same plain operation keeps one cache covering the other. -/
theorem Covering.perform (h : Covering past past' now c d) {op : Operation α β}
    (hplain : op.isPlain = true) (hcalm : Calm (past ++ [op.effect c now]))
    (hcalm' : Calm (past' ++ [op.effect d now])) :
    Covering (past ++ [op.effect c now]) (past' ++ [op.effect d now]) now
      (c.perform op now).cache (d.perform op now).cache := by
  rw [cache_perform, cache_perform]
  rcases Operation.plain_cases hplain with ⟨key, heffect⟩ | heffect | heffect | heffect <;>
    rw [heffect c now] at hcalm ⊢ <;> rw [heffect d now] at hcalm' ⊢
  · exact h.counts key hcalm hcalm'
  · refine h.after rfl ?_ ?_ hcalm hcalm' fun hnested => ?_
    · simp [Cache.after, writes, h.left_open]
    · simp [Cache.after, writes, h.right_open]
    · rw [deeds_writes h.left_open, deeds_writes h.right_open]
      exact hnested.afterAll_deeds h.left.settled h.right.settled hplain
  · exact h.after rfl h.left_open h.right_open hcalm hcalm' fun hnested =>
      hnested.after h.left.settled h.right.settled (show Deed.HappensAt now .reset from trivial)
  · exact h.after rfl h.left_open h.right_open hcalm hcalm' id

/-! ## One sweep -/

/-- A batch may be taken from the first cache alone. -/
theorem Covering.batch_left (h : Covering past past' now c d) (order : Arrangement α) :
    Covering (past ++ [(Section.sweepBatch order).effect c now]) past' now
      (c.enact (.sweepBatch order) now) d := by
  have halike := h.left.alike_enact_batch h.left_open order (Instant.le_refl now)
  refine { h with
    left := h.left.enact _ now
    left_open := (closed_sweepBatch order now).trans h.left_open
    left_waiting := ?_
    included := fun k row hrow => ?_
    nested := fun hcalm hcalm' =>
      (h.nested hcalm.of_append hcalm').of_alike halike (Store.Alike.refl now d.settled) }
  · rw [enact_eq_after]
    exact h.left_waiting.after h.left.untouched h.left_open
  · rw [← contents_settled, ← halike.live?_eq, contents_settled] at hrow
    exact h.included k row hrow

/-- A batch may be taken from the second cache alone. -/
theorem Covering.batch_right (h : Covering past past' now c d) (order : Arrangement α) :
    Covering past (past' ++ [(Section.sweepBatch order).effect d now]) now c
      (d.enact (.sweepBatch order) now) := by
  have halike := h.right.alike_enact_batch h.right_open order (Instant.le_refl now)
  refine { h with
    right := h.right.enact _ now
    right_open := (closed_sweepBatch order now).trans h.right_open
    right_waiting := ?_
    included := fun k row hrow => ?_
    nested := fun hcalm hcalm' =>
      (h.nested hcalm hcalm'.of_append).of_alike (Store.Alike.refl now c.settled) halike }
  · rw [enact_eq_after]
    exact h.right_waiting.after h.right.untouched h.right_open
  · rw [← contents_settled, ← halike.live?_eq, contents_settled]
    exact h.included k row hrow

/-- However many batches a sweep takes from each of the caches, one keeps covering the other. -/
theorem Covering.batches (h : Covering past past' now c d)
    {run run' : List (Section α β × Instant)}
    (hrun : ∀ step ∈ run, ∃ order, step = (.sweepBatch order, now))
    (hrun' : ∀ step ∈ run', ∃ order, step = (.sweepBatch order, now)) :
    Covering (past ++ c.effects run) (past' ++ d.effects run') now (c.enactAll run)
      (d.enactAll run') := by
  induction run generalizing past c with
  | cons step run ih =>
    obtain ⟨order, rfl⟩ := hrun step (by simp)
    have hrest := ih (h.batch_left order) fun s hs => hrun s (by simp [hs])
    rwa [List.append_assoc] at hrest
  | nil =>
    rw [effects_nil, List.append_nil, enactAll_nil]
    induction run' generalizing past' d with
    | nil => rwa [effects_nil, List.append_nil, enactAll_nil]
    | cons step run' ih =>
      obtain ⟨order, rfl⟩ := hrun' step (by simp)
      have hrest := ih (fun s hs => hrun' s (by simp [hs])) (h.batch_right order)
      rwa [List.append_assoc] at hrest

/-! ## Runs -/

/-- Stages that ask the same of both caches keep one covering the other. -/
theorem Covering.pass (h : Covering past past' now c d) {stage stage' : Stage α β}
    (htwin : Stage.Twin stage stage') (hnow : now ≤ stage.ends)
    (hcalm : Calm (past ++ c.effects (c.stageSections stage)))
    (hcalm' : Calm (past' ++ d.effects (d.stageSections stage'))) :
    Covering (past ++ c.effects (c.stageSections stage))
      (past' ++ d.effects (d.stageSections stage')) stage.ends (c.pass stage) (d.pass stage') := by
  cases htwin with
  | perform op hplain moment => exact (h.mono hnow).perform hplain hcalm hcalm'
  | sweep orders orders' moment =>
    rw [Cache.pass, Cache.pass, carry_eq_enactAll, carry_eq_enactAll]
    exact (h.mono hnow).batches (fun step => sweepBatch_of_mem_sweepSections)
      fun step => sweepBatch_of_mem_sweepSections
  | batch order order' moment => exact ((h.mono hnow).batch_left order).batch_right order'

theorem Covering.passAll (h : Covering past past' now c d) {stages stages' : List (Stage α β)}
    (htwins : List.Forall₂ Stage.Twin stages stages')
    (hclock : (now :: stages.flatMap Stage.readings).Pairwise (· ≤ ·))
    (hcalm : Calm (past ++ c.effects (c.itinerary stages)))
    (hcalm' : Calm (past' ++ d.effects (d.itinerary stages'))) (hle : now ≤ later)
    (hlater : ∀ t ∈ stages.flatMap Stage.readings, t ≤ later) :
    Covering (past ++ c.effects (c.itinerary stages)) (past' ++ d.effects (d.itinerary stages'))
      later (c.passAll stages) (d.passAll stages') := by
  induction htwins generalizing past past' now c d with
  | nil =>
    rw [itinerary, itinerary, effects_nil, effects_nil, List.append_nil, List.append_nil]
    exact h.mono hle
  | @cons stage stage' stages stages' htwin htwins ih =>
    rw [List.flatMap_cons] at hclock hlater
    rw [effects_itinerary_cons, ← List.append_assoc] at hcalm hcalm' ⊢
    rw [effects_itinerary_cons, ← List.append_assoc]
    have hnow : now ≤ stage.ends :=
      List.rel_of_pairwise_cons hclock (List.mem_append_left _ stage.ends_mem)
    have hrest : (stage.ends :: stages.flatMap Stage.readings).Pairwise (· ≤ ·) :=
      hclock.sublist (((List.singleton_sublist.mpr stage.ends_mem).append_right _).cons now)
    exact ih (h.pass htwin hnow hcalm.of_append hcalm'.of_append) hrest hcalm hcalm'
      (hlater _ (List.mem_append_left _ stage.ends_mem))
      fun t ht => hlater t (List.mem_append_right _ ht)

/-- Ask the same of two caches, plain operations and sweeps, at the same moments of a clock that
never goes back. If the second may hold as much as the first, or has no bound, and neither has more
hits between two write sections than touches can be kept, then wherever the run ends, everything
that is live in the first cache is live in the second. -/
theorem covers_of_larger {small large : Nat} (hsmall : 0 < small)
    (hle : small ≤ large ∨ large = 0) (batch batch' : Nat) {stages stages' : List (Stage α β)}
    (htwins : List.Forall₂ Stage.Twin stages stages')
    (hclock : (stages.flatMap Stage.readings).Pairwise (· ≤ ·))
    (hcalm : Calm ((empty small batch).effects ((empty small batch).itinerary stages)))
    (hcalm' : Calm ((empty large batch').effects ((empty large batch').itinerary stages')))
    {now : Instant} (hnow : ∀ t ∈ stages.flatMap Stage.readings, t ≤ now) :
    Covers now ((empty small batch : Cache α β).passAll stages)
      ((empty large batch' : Cache α β).passAll stages') := by
  obtain ⟨start, hstart, hreadings⟩ := exists_start hclock hnow
  exact ((covering_empty hsmall hle batch batch' start).passAll htwins hreadings hcalm hcalm'
    hstart hnow).covers

/-- The smaller cache drops the first key for the third, and then finds nothing to update; the
larger one keeps both, and is swept in larger batches. -/
theorem covers_of_larger_after_eviction :
    let stages : List (Stage Nat Nat) :=
      [.errand (.perform (.setAll [(1, some 10), (2, some 20)] .forever) (.clamp 0)),
        .errand (.perform (.get 2) (.clamp 1)),
        .errand (.perform (.set 3 (some 30) (.ofMillis 5)) (.clamp 2)),
        .errand (.perform (.update 1 (some 11)) (.clamp 3)),
        .errand (.perform (.get 1) (.clamp 4)),
        .errand (.sweep (fun _ => .asListed) (.clamp 7)),
        .errand (.perform (.setLifetime 2 (.ofMillis 9)) (.clamp 8)),
        .errand (.perform (.set 4 (some 40) .forever) (.clamp 9))]
    let c : Cache Nat Nat := (empty 2 1).passAll stages
    let d : Cache Nat Nat := (empty 3 5).passAll stages
    c.store.entries.keys = [2, 4] ∧ d.store.entries.keys = [1, 2, 4] ∧ Covers (.clamp 9) c d := by
  intro stages c d
  have htwins : List.Forall₂ Stage.Twin stages stages :=
    .cons (.perform _ rfl _) <| .cons (.perform _ rfl _) <| .cons (.perform _ rfl _) <|
      .cons (.perform _ rfl _) <| .cons (.perform _ rfl _) <| .cons (.sweep _ _ _) <|
      .cons (.perform _ rfl _) <| .cons (.perform _ rfl _) .nil
  have hclock : (stages.flatMap Stage.readings).Pairwise (· ≤ ·) := by decide
  have hcalm : Calm ((empty 2 1).effects ((empty 2 1).itinerary stages)) :=
    calm_of_length_le (by cbv)
  have hcalm' : Calm ((empty 3 5).effects ((empty 3 5).itinerary stages)) :=
    calm_of_length_le (by cbv)
  refine ⟨?_, ?_,
    covers_of_larger (by decide) (.inl (by decide)) 1 5 htwins hclock hcalm hcalm' (by decide)⟩ <;>
  · clear hcalm hcalm' hclock htwins
    subst d c stages
    cbv

end Cache

end ExpiringCache
