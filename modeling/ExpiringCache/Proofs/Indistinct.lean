import ExpiringCache.Proofs.Alike
import ExpiringCache.Proofs.Sweeping

/-!
# Caches that cannot be told apart

Two caches cannot be told apart if their stores read alike and, unless touches have been lost, their
settled stores are alike too. The second one may have been swept more often.

1. **Being indistinct** (`Cache.Indistinct`).
2. **Answers** (`Indistinct.answer_perform`, `answer_look`, `answer_finish`): both caches give the
   same answer.
3. **Effects** (`Indistinct.effect_eq`): every section that is no batch of a sweep has the same
   effect on both.
4. **One section** (`Indistinct.enact`): it keeps them indistinct and evicts the same keys at the
   same inserts.
5. **A batch** (`Indistinct.enact_batch`): a batch of a sweep may be taken from the second alone.
-/

namespace ExpiringCache

variable {α β ρ : Type} [Ord α] [Std.TransOrd α]

namespace Cache

/-- Nothing is stored, and no touch is pending. -/
structure Emptied (c : Cache α β) : Prop where
  entries_eq : c.store.entries = ∅
  touches_eq : c.touches.toList = []

/-- What came before is `past`; nothing that is asked from `now` on tells the caches apart. If too
many hits have come since the last write section, touches were lost; that would show only after
another write section, and there the settled stores need not be alike. -/
structure Indistinct (past : List (Effect α β)) (now : Instant) (c d : Cache α β) : Prop where
  left : c.Consistent
  right : d.Consistent
  closed_eq : c.closed = d.closed
  emptied : c.closed = true → c.Emptied ∧ d.Emptied
  readAlike : Store.ReadAlike now c.store d.store
  waiting : Waiting past c
  alike : CalmThroughout past → Store.Alike now c.settled d.settled
  touches_le : CalmThroughout past → d.touches.toList.length ≤ c.touches.toList.length

variable [Std.LawfulEqOrd α] {past : List (Effect α β)} {now later : Instant} {c d : Cache α β}

theorem contents_settled : c.settled.contents = c.store.contents := by
  by_cases hcap : c.store.recency.capacity = 0
  · rw [settled_of_unbounded hcap]
  · rw [settled_of_bounded (by omega), Store.contents_touchAll]

/-- Readers look at the store without settling it, and see the same. -/
theorem readAlike_settled_iff :
    Store.ReadAlike now c.settled d.settled ↔ Store.ReadAlike now c.store d.store := by
  constructor
  · rintro ⟨hcap, hlive, htally⟩
    simp only [contents_settled, capacity_settled, tally_settled] at hcap hlive htally
    exact ⟨hcap, hlive, htally⟩
  · rintro ⟨hcap, hlive, htally⟩
    refine ⟨?_, ?_, ?_⟩ <;> simpa only [contents_settled, capacity_settled, tally_settled]

theorem Indistinct.settled_readAlike (h : Indistinct past now c d) :
    Store.ReadAlike now c.settled d.settled :=
  readAlike_settled_iff.mpr h.readAlike

theorem Indistinct.mono (h : Indistinct past now c d) (hle : now ≤ later) :
    Indistinct past later c d :=
  { h with
    readAlike := h.readAlike.mono hle
    alike := fun hcalm => (h.alike hcalm).mono hle }

/-! ## Answers -/

omit [Std.LawfulEqOrd α] in
/-- Write sections answer alike if their bodies do. -/
theorem answer_writing (hclosed : c.closed = d.closed) {refused : ρ}
    {body : Store α β → Change α β ρ} (hbody : (body c.settled).answer = (body d.settled).answer) :
    (c.writing refused body).answer = (d.writing refused body).answer := by
  unfold writing
  rw [← hclosed]
  split
  · rfl
  · exact hbody

omit [Std.LawfulEqOrd α] in
theorem answer_lookup (c : Cache α β) (key : α) (now : Instant) :
    (c.lookup key now).answer = (c.store.live? key now).map (·.value) := by
  simp only [lookup]
  split <;> rfl

end Cache

namespace Store

variable [Std.LawfulEqOrd α] {s t : Store α β} {now : Instant}

omit [Std.LawfulEqOrd α] in
/-- What a conditional write stores has nothing to do with the store. -/
theorem putNew_fst_fst (s : Store α β) (key : α) (value : Option β) (lifetime : Lifetime)
    (now : Instant) : (s.putNew key value lifetime now).1.1 = storable? value lifetime := by
  unfold putNew
  split <;> simp_all

theorem removeAll_fst_eq (h : ∀ k, s.contents.live? k now = t.contents.live? k now)
    (keys : List α) : (removeAll now keys s).1 = (removeAll now keys t).1 := by
  induction keys generalizing s t with
  | nil => rfl
  | cons key keys ih =>
    have hvalue : (s.live? key now).map (·.value) = (t.live? key now).map (·.value) := by
      rw [← value_live?_contents, ← value_live?_contents, h]
    have hrest := ih (s := (s.remove key).2) (t := (t.remove key).2) fun k => by
      by_cases hk : k = key
      · rw [hk, live?_remove_self, live?_remove_self]
      · rw [live?_remove_of_ne hk, live?_remove_of_ne hk, h]
    simp only [removeAll, remove_fst]
    rw [hrest]
    show (_ <|> (s.live? key now).map (·.value)) = (_ <|> (t.live? key now).map (·.value))
    rw [hvalue]

end Store

namespace Cache

variable [Std.LawfulEqOrd α] {past : List (Effect α β)} {now later : Instant} {c d : Cache α β}

theorem Indistinct.answer_lookup (h : Indistinct past now c d) (key : α) :
    (c.lookup key now).answer = (d.lookup key now).answer := by
  rw [Cache.answer_lookup, Cache.answer_lookup, ← Store.value_live?_contents,
    ← Store.value_live?_contents, h.readAlike.live?_eq]

theorem Indistinct.answer_perform (h : Indistinct past now c d) (op : Operation α β) :
    (c.perform op now).answer = (d.perform op now).answer := by
  cases op with
  | set | setAll | clear => rfl
  | close => rfl
  | setIfAbsent key value lifetime =>
    refine congrArg (Except.ok ∘ Answer.flag) (answer_writing h.closed_eq ?_)
    rcases h.settled_readAlike.live?_cases key with ⟨hs, ht⟩ | ⟨e, f, hs, ht, -⟩
    · simp only [hs, ht, Option.isSome_none, Bool.false_eq_true, if_false, Store.putNew_fst_fst]
    · simp [hs, ht]
  | get key => exact congrArg (Except.ok ∘ Answer.value) (h.answer_lookup key)
  | getOrSet key value lifetime =>
    refine congrArg (Except.ok ∘ Answer.value) (answer_writing h.closed_eq ?_)
    rcases h.settled_readAlike.live?_cases key with ⟨hs, ht⟩ | ⟨e, f, hs, ht, hsame⟩
    · simp only [hs, ht, Store.putNew_fst_fst]
    · simp only [hs, ht]
      exact congrArg (some ·.1) hsame
  | contains key =>
    exact congrArg (Except.ok ∘ Answer.flag) (h.readAlike.isSome_eq key)
  | timeLeft key =>
    refine congrArg (Except.map Answer.timeLeft) ?_
    simp only [timeLeft, reading]
    rcases h.readAlike.live?_cases key with ⟨hs, ht⟩ | ⟨e, f, hs, ht, hsame⟩
    · simp only [hs, ht]
    · simp only [hs, ht, Entry.timeLeftAt_of_content hsame]
  | remove keys =>
    exact congrArg (Except.ok ∘ Answer.value) (answer_writing h.closed_eq
      (Store.removeAll_fst_eq h.settled_readAlike.live?_eq keys))
  | update key value =>
    refine congrArg (fun old : Option β × Bool => Except.ok (Answer.replaced old.1 old.2))
      (answer_writing h.closed_eq ?_)
    rcases h.settled_readAlike.live?_cases key with ⟨hs, ht⟩ | ⟨e, f, hs, ht, hsame⟩
    · simp only [hs, ht]
    · simp only [hs, ht]
      exact congrArg (fun row => (some row.1, true)) hsame
  | setLifetime key lifetime =>
    refine congrArg (Except.map Answer.timeLeft) (answer_writing h.closed_eq ?_)
    rcases h.settled_readAlike.live?_cases key with ⟨hs, ht⟩ | ⟨e, f, hs, ht, hsame⟩
    · simp only [hs, ht]
    · simp only [hs, ht, Entry.timeLeftAt_of_content hsame]
      cases f.timeLeftAt now <;> rfl
  | size =>
    refine congrArg (Except.ok ∘ Answer.count) ?_
    show c.store.liveCount now = d.store.liveCount now
    rw [h.left.store.indexed.liveCount_eq, h.right.store.indexed.liveCount_eq,
      h.readAlike.length_eq]
  | pairs =>
    have hpairs := congrArg (List.map fun row => (row.1, row.2.1)) h.readAlike.live_eq
    refine congrArg (Except.ok ∘ Answer.pairs) ?_
    simpa [Cache.pairs, reading, Store.live_contents, Function.comp_def] using hpairs
  | keys =>
    have hkeys := congrArg (List.map (·.1)) h.readAlike.live_eq
    refine congrArg (Except.ok ∘ Answer.keys) ?_
    simpa [Cache.keys, reading, Store.live_contents, Function.comp_def] using hkeys
  | values =>
    have hvalues := congrArg (List.map (·.2.1)) h.readAlike.live_eq
    refine congrArg (Except.ok ∘ Answer.values) ?_
    simpa [Cache.values, reading, Store.live_contents, Function.comp_def] using hvalues

theorem Indistinct.answer_look (h : Indistinct past now c d) (call : Call α) :
    (call.look c now).answer = (call.look d now).answer := by
  obtain ⟨form, key, lifetime⟩ := call
  cases form with
  | setIfAbsent =>
    exact congrArg
      (fun live : Bool => if live then Phase.finished (.ok (.flag false)) else .waiting)
      (h.readAlike.isSome_eq key)
  | getOrSet | getOrSetLocked => simp only [Call.look, Turn.map, h.answer_lookup]

/-- The rest of a call ends alike, and its loader runs for both caches or for none. -/
theorem Indistinct.answer_finish (h : Indistinct past now c d) (call : Call α)
    (outcome : Except Fault (Option β)) (later : Instant) :
    (call.finish c outcome now later).answer = (call.finish d outcome now later).answer := by
  obtain ⟨form, key, lifetime⟩ := call
  cases form with
  | getOrSet =>
    cases outcome with
    | error fault => rfl
    | ok value =>
      simp only [Call.finish, Call.enter, Call.conclude, Call.storeUnlocked]
      cases storable? value lifetime with
      | none => rfl
      | some loaded =>
        -- the value is stored unless the cache was closed meanwhile
        refine congrArg (fun stored => (Except.ok (Answer.value stored), true))
          (answer_writing h.closed_eq ?_)
        simp only [Store.putNew_fst_fst]
  | setIfAbsent | getOrSetLocked =>
    by_cases hclosed : c.closed = true
    · simp [Call.finish, Call.enter, writing, hclosed, ← h.closed_eq]
    · rcases h.settled_readAlike.live?_cases key with ⟨hs, ht⟩ | ⟨e, f, hs, ht, hsame⟩
      · rw [settled] at hs ht
        cases outcome <;>
          simp [Call.finish, Call.enter, writing, hclosed, ← h.closed_eq, hs, ht, Call.conclude,
            Call.storeLocked, Turn.map, Store.putNew_fst_fst]
      · rw [settled] at hs ht
        have hvalue : e.value = f.value := congrArg Prod.fst hsame
        simp [Call.finish, Call.enter, writing, hclosed, ← h.closed_eq, hs, ht, hvalue]

/-! ## Effects -/

omit [Std.LawfulEqOrd α] in
theorem writes_eq (hclosed : c.closed = d.closed) (deeds : Store α β → List (Deed α β))
    (hdeeds : deeds c.settled = deeds d.settled) : c.writes deeds = d.writes deeds := by
  simp only [settled] at hdeeds
  rw [writes, writes, hclosed, hdeeds]

theorem Indistinct.counts_eq (h : Indistinct past now c d) (key : α) :
    c.counts key now = d.counts key now := by
  rw [counts, counts, h.readAlike.isSome_eq key]

theorem Indistinct.deeds_eq (h : Indistinct past now c d) (op : Operation α β) :
    op.deeds c.settled now = op.deeds d.settled now := by
  cases op with
  | setIfAbsent key value lifetime =>
    simp only [Operation.deeds, h.settled_readAlike.isSome_eq key]
  | getOrSet key value lifetime =>
    simp only [Operation.deeds, h.settled_readAlike.isSome_eq key]
  | update key value =>
    simp only [Operation.deeds, h.settled_readAlike.isSome_eq key]
  | setLifetime key lifetime =>
    rcases h.settled_readAlike.live?_cases key with ⟨hs, ht⟩ | ⟨e, f, hs, ht, hsame⟩
    · simp only [Operation.deeds, hs, ht]
    · simp only [Operation.deeds, hs, ht, Entry.timeLeftAt_of_content hsame]
  | _ => rfl

theorem Indistinct.lockedDeeds_eq (h : Indistinct past now c d) (call : Call α)
    (outcome : Except Fault (Option β)) (later : Instant) :
    call.lockedDeeds outcome c.settled now later =
      call.lockedDeeds outcome d.settled now later := by
  simp only [Call.lockedDeeds, h.settled_readAlike.isSome_eq call.key]

/-- Every section has the same effect on both, but for a sweep, which may take batches of another
size. -/
theorem Indistinct.effect_eq (h : Indistinct past now c d) {sec : Section α β}
    (hsec : ∀ order, sec ≠ .sweepBatch order) : sec.effect c now = sec.effect d now := by
  cases sec with
  | perform op =>
    have hwrites := writes_eq h.closed_eq (op.deeds · now) (h.deeds_eq op)
    cases op with
    | get key => exact h.counts_eq key
    | close => simp only [Section.effect, Operation.effect, h.closed_eq]
    | contains _ | timeLeft _ | size | pairs | keys | values | clear => rfl
    | _ => exact hwrites
  | look call =>
    obtain ⟨form, key, lifetime⟩ := call
    cases form with
    | setIfAbsent => rfl
    | getOrSet | getOrSetLocked => exact h.counts_eq key
  | finish call outcome later =>
    obtain ⟨form, key, lifetime⟩ := call
    cases form with
    | setIfAbsent | getOrSetLocked =>
      exact writes_eq h.closed_eq (Call.lockedDeeds _ outcome · now later)
        (h.lockedDeeds_eq _ outcome later)
    | getOrSet =>
      simp only [Section.effect, Call.finishEffect]
      split
      · exact writes_eq h.closed_eq _ rfl
      · rfl
      · rfl
  | sweepBatch order => exact absurd rfl (hsec order)
  | shut => rfl

end Cache

namespace Cache

variable {past : List (Effect α β)} {now later : Instant} {c d : Cache α β} {sec : Section α β}

/-! ## Closed caches -/

theorem closed_after_eq (h : c.closed = d.closed) (effect : Effect α β) :
    (c.after effect).closed = (d.after effect).closed := by
  cases effect with
  | idle | miss | clear => exact h
  | hit key =>
    rw [Cache.after, Cache.after, closed_noteHit, closed_noteHit]
    exact h
  | write deeds => cases hc : c.closed <;> simp [Cache.after, ← h, hc]
  | shut | close => rfl

/-- What is closed and empty stays so. -/
theorem Emptied.enact (h : c.Emptied) (hclosed : c.closed = true) (sec : Section α β)
    (now : Instant) : (c.enact sec now).Emptied := by
  rw [enact_eq_after]
  cases heffect : sec.effect c now with
  | idle | miss | shut => exact ⟨h.entries_eq, h.touches_eq⟩
  | hit key =>
    have hlive := live_of_hit heffect
    simp [Store.live?, h.entries_eq] at hlive
  | write deeds => simpa [Cache.after, hclosed] using h
  | clear | close => exact ⟨rfl, rfl⟩

/-- Only a caller who closes the cache does, and leaves it empty. -/
theorem emptied_of_closing (hopen : c.closed = false) (hsec : sec ≠ .shut)
    (h : (c.enact sec now).closed = true) : (c.enact sec now).Emptied := by
  rw [enact_eq_after] at h ⊢
  rcases sec.effect_cases c now with ⟨key, heq⟩ | ⟨deeds, -, heq⟩ | ⟨heq, -⟩ | heq | heq | ⟨-, heq⟩
  · rcases c.counts_cases key now with hcount | ⟨hcount, -⟩
    · rw [heq, hcount] at h
      exact absurd h (by simp [Cache.after, tallied, hopen])
    · rw [heq, hcount, Cache.after, closed_noteHit] at h
      exact absurd h (by simp [tallied, hopen])
  · rw [heq, writes] at h
    exact absurd h (by simp [Cache.after, hopen])
  · rw [heq]
    exact ⟨rfl, rfl⟩
  · rw [heq]
    exact ⟨rfl, rfl⟩
  · rw [heq] at h
    exact absurd h (by simp [Cache.after, hopen])
  · exact absurd heq hsec

/-! ## One section -/

theorem Indistinct.touches_after_le (h : Indistinct past now c d) (hopen : c.closed = false)
    (hle : d.touches.toList.length ≤ c.touches.toList.length) {effect : Effect α β}
    (hroom : effect.isHit = true → c.touches.toList.length < Touches.limit) :
    (d.after effect).touches.toList.length ≤ (c.after effect).touches.toList.length := by
  cases effect with
  | idle | miss | shut => exact hle
  | hit key =>
    have hc := touches_noteHit (c.tallied c.store.tally.hit) key (hroom rfl)
    have hd := touches_noteHit (d.tallied d.store.tally.hit) key
      (Nat.lt_of_le_of_lt hle (hroom rfl))
    have hbounded : (c.tallied c.store.tally.hit).store.recency.isBounded =
        (d.tallied d.store.tally.hit).store.recency.isBounded := by
      show decide (0 < c.store.recency.capacity) = decide (0 < d.store.recency.capacity)
      rw [h.readAlike.capacity_eq]
    rw [Cache.after, Cache.after, hc, hd, hbounded, List.length_append, List.length_append]
    exact Nat.add_le_add_right hle _
  | write deeds | clear | close =>
    have hopen' : d.closed = false := h.closed_eq ▸ hopen
    rw [untouched_after h.right.untouched hopen' rfl]
    exact Nat.zero_le _

/-- Outside write sections nothing happens to a store that readers can see, but that a lookup is
counted. -/
theorem readAlike_after (h : Store.ReadAlike now c.store d.store) {effect : Effect α β}
    (hunlocked : effect.locks = false) :
    Store.ReadAlike now (c.after effect).store (d.after effect).store := by
  cases effect with
  | idle | shut => exact h
  | miss => exact ⟨h.capacity_eq, h.live?_eq, congrArg Tally.miss h.tally_eq⟩
  | hit key =>
    rw [Cache.after, Cache.after, store_noteHit, store_noteHit]
    exact ⟨h.capacity_eq, h.live?_eq, congrArg Tally.hit h.tally_eq⟩
  | write deeds | clear | close => cases hunlocked

/-- Outside write sections the contents stay. -/
theorem contents_after {effect : Effect α β} (hunlocked : effect.locks = false) :
    (c.after effect).store.contents = c.store.contents := by
  cases effect with
  | idle | shut | miss => rfl
  | hit key =>
    rw [Cache.after, store_noteHit]
    rfl
  | write | clear | close => cases hunlocked

theorem evicts_of_unlocked {effect : Effect α β} (hunlocked : effect.locks = false)
    (s : Store α β) : s.evicts effect.deeds = [] := by
  cases effect with
  | idle | miss | hit _ | shut => rfl
  | write deeds | clear | close => cases hunlocked

variable [Std.LawfulEqOrd α]

/-- What a section leaves is seen as its deeds leave the settled store. -/
theorem seen_enact (c : Cache α β) (sec : Section α β) (now : Instant) :
    (c.enact sec now).store.contents =
        (c.settled.afterAll (sec.effect c now).deeds).contents ∧
      (c.enact sec now).store.tally = (c.settled.afterAll (sec.effect c now).deeds).tally := by
  have hclosed : c.closed = true → ∀ deeds, sec.effect c now = .write deeds → deeds = [] :=
    fun hclosed _ heffect => deeds_eq_nil_of_closed hclosed heffect
  rw [enact_eq_after]
  generalize sec.effect c now = effect at hclosed
  have hcontents : c.store.contents = c.settled.contents := contents_settled.symm
  have htally : c.store.tally = c.settled.tally := tally_settled.symm
  cases effect with
  | idle | shut => exact ⟨hcontents, htally⟩
  | miss => exact ⟨hcontents, congrArg Tally.miss htally⟩
  | hit key =>
    have hsame := Store.contents_touch { c.settled with tally := c.settled.tally.hit } key
    have hcounted : ({ c.settled with tally := c.settled.tally.hit }.touch key).tally =
        c.settled.tally.hit := Store.tally_touch
    rw [Cache.after, store_noteHit]
    exact ⟨hcontents.trans hsame.symm, (congrArg Tally.hit htally).trans hcounted.symm⟩
  | write deeds =>
    cases hopen : c.closed with
    | true =>
      rw [hclosed hopen deeds rfl, Cache.after, if_pos hopen]
      exact ⟨hcontents, htally⟩
    | false =>
      rw [store_after_write hopen]
      exact ⟨rfl, rfl⟩
  | clear | close => exact ⟨rfl, htally⟩

/-- As long as touches find room, a section keeps the settled stores alike. -/
theorem Indistinct.alike_enact (h : Indistinct past now c d) (hpast : CalmThroughout past)
    (heffect : sec.effect c now = sec.effect d now) (hle : now ≤ sec.ends now)
    (hroom : (sec.effect c now).isHit = true → c.touches.toList.length < Touches.limit) :
    Store.Alike (sec.ends now) (c.enact sec now).settled (d.enact sec now).settled ∧
      c.settled.evicts (sec.effect c now).deeds = d.settled.evicts (sec.effect d now).deeds := by
  have hd := settled_enact h.right sec now fun hhit =>
    Nat.lt_of_le_of_lt (h.touches_le hpast) (hroom (heffect ▸ hhit))
  rw [settled_enact h.left sec now hroom, hd, ← heffect]
  exact ((h.alike hpast).mono hle).afterAll h.left.settled h.right.settled
    fun deed => happensAt_effect

/-- A section keeps two caches indistinct, and evicts the same keys at the same inserts. -/
theorem Indistinct.enact (h : Indistinct past now c d) (hbatch : ∀ order, sec ≠ .sweepBatch order)
    (hshut : sec ≠ .shut) (hcalm : Calm (past ++ [sec.effect c now])) (hle : now ≤ sec.ends now) :
    Indistinct (past ++ [sec.effect c now]) (sec.ends now) (c.enact sec now) (d.enact sec now) ∧
      c.settled.evicts (sec.effect c now).deeds = d.settled.evicts (sec.effect d now).deeds := by
  have heffect := h.effect_eq hbatch
  have hclosed_eq : (c.enact sec now).closed = (d.enact sec now).closed := by
    rw [enact_eq_after, enact_eq_after, ← heffect]
    exact closed_after_eq h.closed_eq _
  have hreadAlike : Store.ReadAlike (sec.ends now) (c.enact sec now).store (d.enact sec now).store ∧
      c.settled.evicts (sec.effect c now).deeds = d.settled.evicts (sec.effect d now).deeds := by
    cases hlocks : (sec.effect c now).locks with
    | true =>
      -- there was room for every touch that a write section comes to replay
      obtain ⟨halike, hevicts⟩ := h.alike_enact (hcalm.throughout hlocks) heffect hle
        fun hhit => absurd hhit (Effect.not_isHit_of_locks hlocks)
      exact ⟨readAlike_settled_iff.mp halike.toReadAlike, hevicts⟩
    | false =>
      rw [enact_eq_after, enact_eq_after, ← heffect, evicts_of_unlocked hlocks,
        evicts_of_unlocked hlocks]
      exact ⟨readAlike_after (h.readAlike.mono hle) hlocks, rfl⟩
  refine ⟨⟨h.left.enact sec now, h.right.enact sec now, hclosed_eq, fun hclosed' => ?_,
    hreadAlike.1, ?_, ?_, ?_⟩, hreadAlike.2⟩
  · cases hclosed : c.closed with
    | true =>
      exact ⟨(h.emptied hclosed).1.enact hclosed sec now,
        (h.emptied hclosed).2.enact (h.closed_eq ▸ hclosed) sec now⟩
    | false =>
      exact ⟨emptied_of_closing hclosed hshut hclosed',
        emptied_of_closing (h.closed_eq ▸ hclosed) hshut (hclosed_eq ▸ hclosed')⟩
  · cases hclosed : c.closed with
    | true => exact waiting_of_untouched ((h.emptied hclosed).1.enact hclosed sec now).touches_eq _
    | false =>
      rw [enact_eq_after]
      exact h.waiting.after h.left.untouched hclosed
  · intro hnext
    exact (h.alike_enact hnext.of_append heffect hle (h.waiting.room hnext)).1
  · intro hnext
    cases hclosed : c.closed with
    | true =>
      rw [((h.emptied hclosed).2.enact (h.closed_eq ▸ hclosed) sec now).touches_eq]
      exact Nat.zero_le _
    | false =>
      rw [enact_eq_after, enact_eq_after, ← heffect]
      exact h.touches_after_le hclosed (h.touches_le hnext.of_append) (h.waiting.room hnext)

/-! ## A batch -/

/-- A batch shows nowhere in the settled store. -/
theorem Consistent.alike_enact_batch (h : c.Consistent) (hopen : c.closed = false)
    (order : Arrangement α) {moment : Instant} (hle : moment ≤ now) :
    Store.Alike now c.settled (c.enact (.sweepBatch order) moment).settled := by
  rw [settled_enact h (.sweepBatch order) moment fun hhit => by cases hhit]
  simp only [Section.effect, writes, hopen, Effect.deeds]
  exact h.settled.alike_purge order hle _

/-- A batch that is taken from the second cache alone is not noticed. -/
theorem Indistinct.enact_batch (h : Indistinct past now c d) (order : Arrangement α)
    {moment : Instant} (hle : moment ≤ now) :
    Indistinct past now c (d.enact (.sweepBatch order) moment) := by
  cases hclosed : c.closed with
  | true =>
    -- nothing is swept from a closed cache
    have hd : d.closed = true := h.closed_eq ▸ hclosed
    have hsame : d.enact (.sweepBatch order) moment = d := by
      simp [Cache.enact, sweepBatch, writing, hd]
    rwa [hsame]
  | false =>
    have hd : d.closed = false := h.closed_eq ▸ hclosed
    have hpurge := h.right.alike_enact_batch hd order hle
    refine ⟨h.left, h.right.enact _ _, ?_, fun hc => ?_, h.readAlike.trans ?_, h.waiting,
      fun hcalm => (h.alike hcalm).trans hpurge, fun _ => ?_⟩
    · rw [Cache.enact, closed_sweepBatch, h.closed_eq]
    · rw [hclosed] at hc
      cases hc
    · exact readAlike_settled_iff.mp hpurge.toReadAlike
    · rw [enact_eq_after, untouched_after h.right.untouched hd rfl]
      exact Nat.zero_le _

end Cache

end ExpiringCache
