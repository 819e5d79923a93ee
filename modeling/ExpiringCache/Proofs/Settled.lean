import ExpiringCache.Proofs.Reachable

/-!
# The settled store

A hit does not reorder anything at once: it leaves a touch, and the next write section replays it.
The settled store is the store as a write section would find it, with every pending touch replayed.
Seen through it, nothing is put off.

1. **One section** (`settled_enact`): if there is room for a touch, a section does its deeds to the
   settled store.
2. **Room** (`Calm`, `Waiting`): if between two write sections there are no more hits than touches
   can be kept, there is always room.
3. **Runs** (`settled_enactAll`): after a run that is calm throughout and leaves the cache open, the
   settled store is the one it began with after the deeds of the run, one after the other.
-/

namespace ExpiringCache

variable {α β : Type}

/-! ## Calm runs -/

/-- No write section finds more hits behind it, since the write section before, than touches can be
kept. -/
def Calm (effects : List (Effect α β)) : Prop :=
  ∀ before quiet write rest, effects = before ++ quiet ++ write :: rest →
    (∀ e ∈ quiet, e.locks = false) → write.locks = true → quiet.countP Effect.isHit ≤ Touches.limit

/-- There are no more hits than touches can be kept after the last write section either. -/
def CalmThroughout (effects : List (Effect α β)) : Prop :=
  ∀ before quiet rest, effects = before ++ quiet ++ rest → (∀ e ∈ quiet, e.locks = false) →
    quiet.countP Effect.isHit ≤ Touches.limit

theorem Calm.of_append {effects more : List (Effect α β)} (h : Calm (effects ++ more)) :
    Calm effects := by
  intro before quiet write rest heq
  exact h before quiet write (rest ++ more) (by rw [heq, List.append_assoc, List.cons_append])

theorem CalmThroughout.of_append {effects more : List (Effect α β)}
    (h : CalmThroughout (effects ++ more)) : CalmThroughout effects := by
  intro before quiet rest heq
  exact h before quiet (rest ++ more) (by rw [heq, List.append_assoc])

/-- Until a write section comes, a calm run was calm throughout. -/
theorem Calm.throughout {effects : List (Effect α β)} {write : Effect α β}
    (h : Calm (effects ++ [write])) (hwrite : write.locks = true) : CalmThroughout effects := by
  intro before quiet rest heq hquiet
  -- the stretch goes on to the next write section
  induction rest generalizing quiet with
  | nil => exact h before quiet write [] (by rw [heq, List.append_nil]) hquiet hwrite
  | cons e rest ih =>
    cases he : e.locks with
    | true => exact h before quiet e (rest ++ [write]) (by simp [heq]) hquiet he
    | false =>
      have hlonger := ih (quiet ++ [e]) (by simp [heq])
        (List.forall_mem_append.mpr ⟨hquiet, List.forall_mem_singleton.mpr he⟩)
      rw [List.countP_append] at hlonger
      exact Nat.le_trans (Nat.le_add_right _ _) hlonger

/-- A short run is calm. -/
theorem calm_of_length_le {effects : List (Effect α β)} (h : effects.length ≤ Touches.limit) :
    Calm effects := by
  intro before quiet write rest heq _ _
  have hlen : quiet.length ≤ effects.length := by
    rw [heq, List.length_append, List.length_append]
    omega
  exact Nat.le_trans List.countP_le_length (Nat.le_trans hlen h)

variable [Ord α] [Std.TransOrd α]

namespace Cache

/-- The store as a write section finds it. -/
def settled (c : Cache α β) : Store α β := c.settle.store

variable {c : Cache α β}

/-! ## One effect -/

theorem settled_of_unbounded (h : c.store.recency.capacity = 0) : c.settled = c.store := by
  rw [settled, settle_of_unbounded h]

theorem settled_of_bounded (h : 0 < c.store.recency.capacity) :
    c.settled = c.store.touchAll c.touches.toList := by
  rw [settled, settle_of_bounded h]

/-- Nothing waits to be replayed. -/
theorem settled_of_untouched (h : c.touches.toList = []) : c.settled = c.store := by
  by_cases hcap : c.store.recency.capacity = 0
  · exact settled_of_unbounded hcap
  · rw [settled_of_bounded (by omega), h]
    rfl

@[simp] theorem capacity_settled : c.settled.recency.capacity = c.store.recency.capacity :=
  capacity_settle

@[simp] theorem tally_settled : c.settled.tally = c.store.tally := by
  by_cases hcap : c.store.recency.capacity = 0
  · rw [settled_of_unbounded hcap]
  · rw [settled_of_bounded (by omega), Store.tally_touchAll]

/-- Counting a lookup and replaying touches can be done in either order. -/
theorem settle_tallied (c : Cache α β) (tally : Tally) :
    (c.tallied tally).settle = c.settle.tallied tally := by
  by_cases hcap : c.store.recency.capacity = 0
  · rw [settle_of_unbounded (by exact hcap), settle_of_unbounded hcap]
  · rw [settle_of_bounded (by exact Nat.pos_of_ne_zero hcap), settle_of_bounded (by omega)]
    simp only [tallied, Store.touchAll_tallied]

theorem settled_tallied (tally : Tally) :
    (c.tallied tally).settled = { c.settled with tally } :=
  congrArg store (settle_tallied c tally)

/-- A touch that is left is a touch of the settled store, if there is room for it. -/
theorem settled_noteHit (c : Cache α β) (key : α)
    (hroom : c.touches.toList.length < Touches.limit) :
    (c.noteHit key).1.settled = c.settled.touch key := by
  by_cases hcap : c.store.recency.capacity = 0
  · rw [noteHit_of_unbounded hcap, Store.touch_of_unbounded (by simpa using hcap)]
  · have hbounded : c.store.recency.isBounded = true := by
      simpa [Recency.isBounded] using Nat.pos_of_ne_zero hcap
    cases hpush : c.touches.push? key with
    | none =>
      have := Touches.push?_eq_none_iff.mp hpush
      omega
    | some touches =>
      have hnote : (c.noteHit key).1 = { c with touches } := by
        simp [noteHit, hbounded, hpush]
      rw [hnote, settled_of_bounded (by exact Nat.pos_of_ne_zero hcap),
        settled_of_bounded (by omega)]
      show c.store.touchAll touches.toList = _
      rw [Touches.toList_of_push? hpush, Store.touchAll, List.foldl_append]
      rfl

theorem untouched_settle (h : c.store.recency.capacity = 0 → c.touches.toList = []) :
    c.settle.touches.toList = [] := by
  by_cases hcap : c.store.recency.capacity = 0
  · rw [settle_of_unbounded hcap, h hcap]
  · rw [settle_of_bounded (by omega)]
    rfl

/-- Marking the cache as closed leaves what is pending. -/
@[simp] theorem settled_shut : c.shut.settled = c.settled := by
  by_cases hcap : c.store.recency.capacity = 0
  · rw [settled_of_unbounded (by exact hcap), settled_of_unbounded hcap]
    rfl
  · rw [settled_of_bounded (by exact Nat.pos_of_ne_zero hcap), settled_of_bounded (by omega)]
    rfl

/-- Clearing drops the pending touches with the entries they are for. -/
theorem settled_clear : c.clear.cache.settled = c.settled.reset := by
  rw [settled_of_untouched (by rfl)]
  simp [clear, Store.reset]

theorem settled_after (huntouched : c.store.recency.capacity = 0 → c.touches.toList = [])
    {effect : Effect α β}
    (hclosed : c.closed = true → ∀ deeds, effect = .write deeds → deeds = [])
    (hroom : effect.isHit = true → c.touches.toList.length < Touches.limit) :
    (c.after effect).settled = c.settled.afterAll effect.deeds := by
  cases effect with
  | idle => rfl
  | shut => exact settled_shut
  | miss =>
    rw [Cache.after, settled_tallied]
    simp [Effect.deeds, Store.after]
  | hit key =>
    have hnote : (c.after (.hit key)).settled = (c.tallied c.store.tally.hit).settled.touch key :=
      settled_noteHit (c.tallied _) key (hroom rfl)
    rw [hnote, settled_tallied]
    simp [Effect.deeds, Store.after]
  | write deeds =>
    cases hc : c.closed with
    | true =>
      -- nothing is done, and there was nothing to do
      rw [hclosed hc deeds rfl]
      simp [Cache.after, hc, Effect.deeds]
    | false =>
      have hafter :
          c.after (.write deeds) = { c.settle with store := c.settled.afterAll deeds } := by
        simp [Cache.after, hc, settled]
      rw [hafter, settled_of_untouched (by exact untouched_settle huntouched)]
      rfl
  | clear => exact settled_clear
  | close =>
    refine settled_clear.trans ?_
    rw [settled_shut]
    rfl

/-! ## Room for touches -/

section Room

/-- The pending touches were left by hits since the last write section. -/
def Waiting (past : List (Effect α β)) (c : Cache α β) : Prop :=
  ∃ before quiet, past = before ++ quiet ∧ (∀ e ∈ quiet, e.locks = false) ∧
    c.touches.toList.length ≤ quiet.countP Effect.isHit

variable {past : List (Effect α β)} {effect : Effect α β}

omit [Std.TransOrd α]

theorem waiting_of_untouched (h : c.touches.toList = []) (past : List (Effect α β)) :
    Waiting past c :=
  ⟨past, [], (List.append_nil past).symm, by simp, by simp [h]⟩

/-- In a run that is calm throughout, a hit finds room for its touch. -/
theorem Waiting.room (h : Waiting past c) (hcalm : CalmThroughout (past ++ [effect]))
    (hhit : effect.isHit = true) : c.touches.toList.length < Touches.limit := by
  obtain ⟨before, quiet, rfl, hquiet, hlen⟩ := h
  have hunlocked : effect.locks = false := by
    rw [← Bool.not_eq_true]
    exact fun hlocks => Effect.not_isHit_of_locks hlocks hhit
  have hcount := hcalm before (quiet ++ [effect]) [] (by simp)
    (List.forall_mem_append.mpr ⟨hquiet, List.forall_mem_singleton.mpr hunlocked⟩)
  rw [List.countP_append, List.countP_singleton, if_pos hhit] at hcount
  omega

theorem closed_noteHit (c : Cache α β) (key : α) : (c.noteHit key).1.closed = c.closed := by
  unfold noteHit
  split
  · split <;> rfl
  · rfl

/-- Where an order of use is kept, a hit leaves its touch if there is room. -/
theorem touches_noteHit (c : Cache α β) (key : α)
    (hroom : c.touches.toList.length < Touches.limit) :
    (c.noteHit key).1.touches.toList =
      c.touches.toList ++ if c.store.recency.isBounded then [key] else [] := by
  unfold noteHit
  split
  · cases hpush : c.touches.push? key with
    | none =>
      have := Touches.push?_eq_none_iff.mp hpush
      omega
    | some touches => exact Touches.toList_of_push? hpush
  · exact (List.append_nil _).symm

theorem length_touches_noteHit_le (c : Cache α β) (key : α) :
    (c.noteHit key).1.touches.toList.length ≤ c.touches.toList.length + 1 := by
  unfold noteHit
  split
  · cases hpush : c.touches.push? key with
    | none => exact Nat.le_succ _
    | some touches => simp [Touches.toList_of_push? hpush]
  · exact Nat.le_succ _

end Room

section Room

variable {past : List (Effect α β)} {effect : Effect α β}

/-- Outside write sections, only hits leave touches, one each. -/
theorem length_touches_after_le (hunlocked : effect.locks = false) :
    (c.after effect).touches.toList.length ≤
      c.touches.toList.length + [effect].countP Effect.isHit := by
  cases effect with
  | idle | miss | shut => exact Nat.le_refl _
  | hit key => exact length_touches_noteHit_le (c.tallied _) key
  | write deeds | clear | close => cases hunlocked

/-- A write section leaves no touch pending. -/
theorem untouched_after (huntouched : c.store.recency.capacity = 0 → c.touches.toList = [])
    (hopen : c.closed = false) (hlocks : effect.locks = true) :
    (c.after effect).touches.toList = [] := by
  cases effect with
  | idle | miss | hit _ | shut => cases hlocks
  | write deeds => simpa [Cache.after, hopen] using untouched_settle huntouched
  | clear | close => rfl

theorem Waiting.after (h : Waiting past c)
    (huntouched : c.store.recency.capacity = 0 → c.touches.toList = [])
    (hopen : c.closed = false) : Waiting (past ++ [effect]) (c.after effect) := by
  cases hlocks : effect.locks with
  | true => exact waiting_of_untouched (untouched_after huntouched hopen hlocks) _
  | false =>
    obtain ⟨before, quiet, rfl, hquiet, hlen⟩ := h
    refine ⟨before, quiet ++ [effect], by simp, ?_, ?_⟩
    · exact List.forall_mem_append.mpr ⟨hquiet, List.forall_mem_singleton.mpr hlocks⟩
    · rw [List.countP_append]
      exact Nat.le_trans (length_touches_after_le hlocks) (Nat.add_le_add_right hlen _)

/-- A closed cache is never opened again. -/
theorem open_of_after (h : (c.after effect).closed = false) : c.closed = false := by
  cases effect with
  | idle | miss => exact h
  | hit key => rwa [Cache.after, closed_noteHit] at h
  | write deeds =>
    cases hclosed : c.closed with
    | false => rfl
    | true => simp [Cache.after, hclosed] at h
  | clear => exact h
  | shut | close => cases h

theorem open_of_enactAll {run : List (Section α β × Instant)}
    (h : (c.enactAll run).closed = false) : c.closed = false := by
  induction run generalizing c with
  | nil => exact h
  | cons step run ih =>
    have hstep : (c.enact step.1 step.2).closed = false := ih h
    rw [enact_eq_after] at hstep
    exact open_of_after hstep

end Room

/-! ## Runs -/

variable [Std.LawfulEqOrd α]

theorem Consistent.settled (h : c.Consistent) : c.settled.Consistent := h.settle.store

omit [Std.LawfulEqOrd α] in
/-- With room for its touch, a section does its deeds to the settled store. -/
theorem settled_enact (h : c.Consistent) (sec : Section α β) (now : Instant)
    (hroom : (sec.effect c now).isHit = true → c.touches.toList.length < Touches.limit) :
    (c.enact sec now).settled = c.settled.afterAll (sec.effect c now).deeds := by
  rw [enact_eq_after]
  exact settled_after h.untouched (fun hclosed _ => deeds_eq_nil_of_closed hclosed) hroom

omit [Std.LawfulEqOrd α] in
/-- The store after a write section of an open cache. -/
theorem store_after_write (hopen : c.closed = false) (deeds : List (Deed α β)) :
    (c.after (.write deeds)).store = c.settled.afterAll deeds := by
  simp [Cache.after, hopen, Cache.settled]

/-- The deeds of a run that is calm throughout are done to the settled store, one after the other,
and the touches that it leaves pending were left since its last write section. -/
theorem settled_enactAll {past : List (Effect α β)} (h : c.Consistent) (hwaiting : Waiting past c)
    {run : List (Section α β × Instant)} (hcalm : CalmThroughout (past ++ c.effects run))
    (hopen : (c.enactAll run).closed = false) :
    (c.enactAll run).settled = c.settled.afterAll ((c.effects run).flatMap Effect.deeds) ∧
      Waiting (past ++ c.effects run) (c.enactAll run) := by
  induction run generalizing c past with
  | nil => exact ⟨rfl, by simpa using hwaiting⟩
  | cons step run ih =>
    obtain ⟨sec, now⟩ := step
    simp only [enactAll_cons, effects_cons, List.flatMap_cons, Store.afterAll_append] at *
    have hstep := enact_eq_after c sec now
    -- a run that ends open was open all the time
    have hopen₁ : (c.enact sec now).closed = false := open_of_enactAll hopen
    have hopen₀ : c.closed = false := open_of_after (by rwa [hstep] at hopen₁)
    rw [List.append_cons] at hcalm ⊢
    have hwaiting₁ : Waiting (past ++ [sec.effect c now]) (c.enact sec now) := by
      rw [hstep]
      exact hwaiting.after h.untouched hopen₀
    obtain ⟨hsettled, hrest⟩ := ih (h.enact sec now) hwaiting₁ hcalm hopen
    refine ⟨?_, hrest⟩
    rw [hsettled, settled_enact h sec now (hwaiting.room hcalm.of_append)]

end Cache

end ExpiringCache
