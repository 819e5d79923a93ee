import ExpiringCache.Proofs.Indistinct

/-!
# Putting off the order of use

A hit leaves a touch, and the next write section moves the key to the end of the order of use. An
eager cache moves it at once and keeps no touches. Here no caller can tell the two apart, and the
eager store is at every step what the other one is with its pending touches replayed.

1. **Eager caches** (`EagerCache`): only their counted lookups are their own.
2. **What is told** (`Told`): of every section its reply, what its inserts evict, and the counters.
3. **Mirroring** (`Mirrors.enact`): a section is told alike of both caches and keeps one the mirror
   of the other. The clock may show anything.
4. **Pending touches** (`TouchesStored`): their keys stay stored until they are replayed.
5. **Runs** (`mirrored_run`).
-/

namespace ExpiringCache

/-- A cache whose hits take their place in the order of use at once. -/
structure EagerCache (α β : Type) [Ord α] where
  store : Store α β
  batch : Nat
  closed : Bool
  batch_pos : 0 < batch

/-- What a section answers. -/
inductive Section.Reply (α β : Type) where
  | answered (result : Except Fault (Answer α β))
  | looked (phase : Phase α β)
  /-- The result of a call, and whether its loader ran. -/
  | computed (result : Except Fault (Answer α β)) (loaded : Bool)
  | swept (taken : Option Nat)
  | marked

/-- What can be told of a section. -/
structure Told (α β : Type) where
  reply : Section.Reply α β
  /-- The keys written, each with the keys that were evicted for it. -/
  evicted : List (α × List α)
  tally : Tally

variable {α β : Type} [Ord α] [Std.TransOrd α]

/-- The key of a lookup that counts. -/
def Section.lookupKey? : Section α β → Option α
  | .perform (.get key) | .look ⟨.getOrSet, key, _⟩ | .look ⟨.getOrSetLocked, key, _⟩ => some key
  | .perform _ | .look ⟨.setIfAbsent, _, _⟩ | .finish _ _ _ | .sweepBatch _ | .shut => none

namespace Cache

/-- What a section answers its caller. -/
def reply (c : Cache α β) (sec : Section α β) (now : Instant) : Section.Reply α β :=
  match sec with
  | .perform op => .answered (c.perform op now).answer
  | .look call => .looked (call.look c now).answer
  | .finish call outcome later =>
    let told := (call.finish c outcome now later).answer
    .computed told.1 told.2
  | .sweepBatch order => .swept (c.sweepBatch order now).answer
  | .shut => .marked

/-- What is told of a section. -/
def tell (c : Cache α β) (sec : Section α β) (now : Instant) : Told α β :=
  ⟨c.reply sec now, c.settled.evicts (sec.effect c now).deeds, (c.enact sec now).store.tally⟩

/-- What is told of the sections of a run. -/
def tellAll : Cache α β → List (Section α β × Instant) → List (Told α β)
  | _, [] => []
  | c, (sec, now) :: run => c.tell sec now :: tellAll (c.enact sec now) run

end Cache

namespace EagerCache

omit [Ord α] [Std.TransOrd α] in
/-- A batch of zero counts as one. -/
theorem max_one_pos (batch : Nat) : 0 < max batch 1 := Nat.le_max_right batch 1

/-- An empty eager cache. -/
def empty (capacity batch : Nat) : EagerCache α β where
  store := .empty capacity
  batch := max batch 1
  closed := false
  batch_pos := max_one_pos batch

/-- The same cache with no touch pending. -/
def toCache (p : EagerCache α β) : Cache α β where
  store := p.store
  touches := .empty
  batch := p.batch
  closed := p.closed
  sweeper := none
  batch_pos := p.batch_pos

/-- A lookup counts, and a hit is touched at once. -/
def lookup (p : EagerCache α β) (key : α) (now : Instant) : EagerCache α β :=
  if (p.store.live? key now).isSome then
    { p with store := { p.store with tally := p.store.tally.hit }.touch key }
  else { p with store := { p.store with tally := p.store.tally.miss } }

/-- Every other section leaves no touch, and does what it does to a cache with none pending. -/
def enact (p : EagerCache α β) (sec : Section α β) (now : Instant) : EagerCache α β :=
  match sec.lookupKey? with
  | some key => p.lookup key now
  | none =>
    let c := p.toCache.enact sec now
    ⟨c.store, c.batch, c.closed, c.batch_pos⟩

/-- Sections one after the other, each at its own reading of the clock. -/
def enactAll (p : EagerCache α β) (run : List (Section α β × Instant)) : EagerCache α β :=
  run.foldl (fun p step => p.enact step.1 step.2) p

/-- What is told of a section. -/
def tell (p : EagerCache α β) (sec : Section α β) (now : Instant) : Told α β :=
  ⟨p.toCache.reply sec now, p.store.evicts (sec.effect p.toCache now).deeds,
    (p.enact sec now).store.tally⟩

/-- What is told of the sections of a run. -/
def tellAll : EagerCache α β → List (Section α β × Instant) → List (Told α β)
  | _, [] => []
  | p, (sec, now) :: run => p.tell sec now :: tellAll (p.enact sec now) run

end EagerCache

namespace Section

variable {sec : Section α β} {key : α}

theorem effect_of_lookup (h : sec.lookupKey? = some key) (c : Cache α β) (now : Instant) :
    sec.effect c now = c.counts key now := by
  cases sec with
  | perform op => cases op <;> cases h; rfl
  | look call =>
    obtain ⟨form, k, lifetime⟩ := call
    cases form <;> cases h <;> rfl
  | finish | sweepBatch | shut => cases h

/-- Nothing else is a hit. -/
theorem not_isHit_of_no_lookup (h : sec.lookupKey? = none) (c : Cache α β) (now : Instant) :
    (sec.effect c now).isHit = false := by
  cases sec with
  | perform op =>
    cases op with
    | get => cases h
    | close =>
      simp only [effect, Operation.effect]
      split <;> rfl
    | _ => rfl
  | look call =>
    obtain ⟨form, k, lifetime⟩ := call
    cases form with
    | setIfAbsent => rfl
    | getOrSet | getOrSetLocked => cases h
  | finish call outcome later =>
    obtain ⟨form, k, lifetime⟩ := call
    cases form with
    | setIfAbsent | getOrSetLocked => rfl
    | getOrSet =>
      simp only [effect, Call.finishEffect]
      split <;> rfl
  | sweepBatch | shut => rfl

end Section

namespace Cache

variable {c : Cache α β} {effect : Effect α β}

/-- With no touch pending, deeds are done to the store as it is. -/
theorem store_after (huntouched : c.touches.toList = []) (hhit : effect.isHit = false)
    (hclosed : c.closed = true → ∀ deeds, effect = .write deeds → deeds = []) :
    (c.after effect).store = c.store.afterAll effect.deeds := by
  cases effect with
  | idle | miss | clear | shut | close => rfl
  | hit key => cases hhit
  | write deeds =>
    cases hc : c.closed with
    | true =>
      rw [hclosed hc deeds rfl]
      simp [Cache.after, hc, Effect.deeds]
    | false => rw [store_after_write hc, settled_of_untouched huntouched, Effect.deeds]

end Cache

namespace EagerCache

variable {p : EagerCache α β} {sec : Section α β} {now : Instant}

@[simp] theorem settled_toCache (p : EagerCache α β) : p.toCache.settled = p.store :=
  Cache.settled_of_untouched rfl

theorem consistent_toCache (h : p.store.Consistent) : p.toCache.Consistent := ⟨h, fun _ => rfl⟩

/-- A section does its deeds, hits at once. -/
theorem store_enact (p : EagerCache α β) (sec : Section α β) (now : Instant) :
    (p.enact sec now).store = p.store.afterAll (sec.effect p.toCache now).deeds := by
  cases hkey : sec.lookupKey? with
  | some key =>
    simp only [enact, hkey, lookup, Section.effect_of_lookup hkey, Cache.counts, toCache]
    split <;> rfl
  | none =>
    simp only [enact, hkey]
    rw [Cache.enact_eq_after]
    exact Cache.store_after rfl (Section.not_isHit_of_no_lookup hkey _ now) fun hclosed _ =>
      Cache.deeds_eq_nil_of_closed hclosed

theorem closed_enact (p : EagerCache α β) (sec : Section α β) (now : Instant) :
    (p.enact sec now).closed = (p.toCache.after (sec.effect p.toCache now)).closed := by
  cases hkey : sec.lookupKey? with
  | some key =>
    have hclosed : (p.toCache.after (p.toCache.counts key now)).closed = p.closed := by
      rcases p.toCache.counts_cases key now with heq | ⟨heq, -⟩ <;> rw [heq]
      · rfl
      · exact Cache.closed_noteHit _ key
    simp only [enact, hkey, lookup, Section.effect_of_lookup hkey, hclosed]
    split <;> rfl
  | none => simp only [enact, hkey, Cache.enact_eq_after]

theorem batch_enact (p : EagerCache α β) (sec : Section α β) (now : Instant) :
    (p.enact sec now).batch = p.batch := by
  cases hkey : sec.lookupKey? with
  | some key =>
    simp only [enact, hkey, lookup]
    split <;> rfl
  | none =>
    simp only [enact, hkey, Cache.enact_eq_after]
    exact Cache.batch_after _ _

end EagerCache

namespace Cache

/-! ## Mirroring -/

/-- What came before is `past`. As long as no touch was lost, the eager store is the settled one. A
touch that was lost does not show before the next write section. -/
structure Mirrors (past : List (Effect α β)) (c : Cache α β) (p : EagerCache α β) : Prop where
  left : c.Consistent
  right : p.store.Consistent
  closed_eq : c.closed = p.closed
  batch_eq : c.batch = p.batch
  emptied : c.closed = true → c.Emptied
  contents_eq : c.store.contents = p.store.contents
  capacity_eq : c.store.recency.capacity = p.store.recency.capacity
  tally_eq : c.store.tally = p.store.tally
  waiting : Waiting past c
  settled_eq : (0 < c.store.recency.capacity → CalmThroughout past) → c.settled = p.store

theorem mirrors_empty (capacity batch : Nat) :
    Mirrors [] (empty capacity batch : Cache α β) (.empty capacity batch) where
  left := consistent_empty capacity batch
  right := Store.consistent_empty capacity
  closed_eq := rfl
  batch_eq := rfl
  emptied := nofun
  contents_eq := rfl
  capacity_eq := rfl
  tally_eq := rfl
  waiting := waiting_of_untouched rfl []
  settled_eq _ := settled_of_untouched rfl

variable [Std.LawfulEqOrd α] {past : List (Effect α β)} {c : Cache α β} {p : EagerCache α β}
  {sec : Section α β} {now : Instant}

theorem entries_eq_empty_of_contents {s t : Store α β} (h : s.contents = t.contents)
    (hs : s.entries = ∅) : t.entries = ∅ := by
  apply Std.ExtTreeMap.ext_getElem?
  intro k
  have hrow : s.contents[k]? = t.contents[k]? := by rw [h]
  rw [Store.getElem?_contents, Store.getElem?_contents, hs] at hrow
  simpa using hrow

/-- At no moment do callers tell the two apart. -/
theorem Mirrors.indistinct (h : Mirrors past c p) (now : Instant) :
    Indistinct past now c p.toCache where
  left := h.left
  right := EagerCache.consistent_toCache h.right
  closed_eq := h.closed_eq
  emptied hclosed :=
    ⟨h.emptied hclosed, entries_eq_empty_of_contents h.contents_eq (h.emptied hclosed).entries_eq,
      rfl⟩
  readAlike := ⟨h.capacity_eq, fun k => congrArg (Rows.live? · k now) h.contents_eq,
    congrArg Tally.unexpired h.tally_eq⟩
  waiting := h.waiting
  alike hcalm := by
    rw [h.settled_eq fun _ => hcalm, EagerCache.settled_toCache]
    exact Store.Alike.refl now p.store
  touches_le _ := Nat.zero_le _

/-- A section has the same effect on both. -/
theorem Mirrors.effect_eq (h : Mirrors past c p) (sec : Section α β) (now : Instant) :
    sec.effect c now = sec.effect p.toCache now := by
  cases sec with
  | sweepBatch order =>
    have hbatch : c.batch = p.toCache.batch := h.batch_eq
    simp only [Section.effect, hbatch]
    exact writes_eq h.closed_eq _ rfl
  | perform | look | finish | shut => exact (h.indistinct now).effect_eq (by simp)

omit [Std.LawfulEqOrd α] in
/-- What a write section finds is the eager store. -/
theorem Mirrors.settled_eq_of_locks (h : Mirrors past c p) {effect : Effect α β}
    (hcalm : 0 < c.store.recency.capacity → Calm (past ++ [effect]))
    (hlocks : effect.locks = true) : c.settled = p.store :=
  h.settled_eq fun hpos => (hcalm hpos).throughout hlocks

theorem Mirrors.reply_eq (h : Mirrors past c p)
    (hcalm : 0 < c.store.recency.capacity → Calm (past ++ [sec.effect c now])) :
    c.reply sec now = p.toCache.reply sec now := by
  have hind := h.indistinct now
  cases sec with
  | perform op => exact congrArg Section.Reply.answered (hind.answer_perform op)
  | look call => exact congrArg Section.Reply.looked (hind.answer_look call)
  | finish call outcome later => simp only [reply, hind.answer_finish call outcome later]
  | sweepBatch order =>
    have hsettled : c.settled = p.toCache.settled :=
      (h.settled_eq_of_locks hcalm rfl).trans (EagerCache.settled_toCache p).symm
    have hbatch : c.batch = p.toCache.batch := h.batch_eq
    simp only [reply, sweepBatch, hbatch]
    exact congrArg Section.Reply.swept (answer_writing hind.closed_eq (by rw [hsettled]))
  | shut => rfl

theorem Mirrors.evicts_eq (h : Mirrors past c p)
    (hcalm : 0 < c.store.recency.capacity → Calm (past ++ [sec.effect c now])) :
    c.settled.evicts (sec.effect c now).deeds =
      p.store.evicts (sec.effect p.toCache now).deeds := by
  rw [← h.effect_eq]
  cases hlocks : (sec.effect c now).locks with
  | true => rw [h.settled_eq_of_locks hcalm hlocks]
  | false => rw [evicts_of_unlocked hlocks, evicts_of_unlocked hlocks]

/-- A section does the same to the settled store and to the eager one. -/
theorem Mirrors.settled_enact (h : Mirrors past c p) (hsettled : c.settled = p.store)
    (hroom : (sec.effect c now).isHit = true → c.touches.toList.length < Touches.limit) :
    (c.enact sec now).settled = (p.enact sec now).store := by
  rw [Cache.settled_enact h.left sec now hroom, EagerCache.store_enact, ← h.effect_eq, hsettled]

omit [Std.LawfulEqOrd α] in
/-- Where an order of use is kept there is room for the touch of a hit, and elsewhere none is
left. -/
theorem Mirrors.room (h : Mirrors past c p)
    (hcalm : 0 < c.store.recency.capacity → CalmThroughout (past ++ [sec.effect c now]))
    (hhit : (sec.effect c now).isHit = true) : c.touches.toList.length < Touches.limit := by
  by_cases hpos : 0 < c.store.recency.capacity
  · exact h.waiting.room (hcalm hpos) hhit
  · rw [h.left.untouched (by omega)]
    exact Nat.zero_lt_succ _

/-- What readers see of both stores stays the same. -/
theorem Mirrors.seen_eq (h : Mirrors past c p)
    (hcalm : 0 < c.store.recency.capacity → Calm (past ++ [sec.effect c now])) :
    (c.enact sec now).store.contents = (p.enact sec now).store.contents ∧
      (c.enact sec now).store.tally = (p.enact sec now).store.tally := by
  cases hlocks : (sec.effect c now).locks with
  | true =>
    have hsettled := h.settled_enact (h.settled_eq_of_locks hcalm hlocks) fun hhit =>
      absurd hhit (Effect.not_isHit_of_locks hlocks)
    rw [← contents_settled, ← tally_settled, hsettled]
    exact ⟨rfl, rfl⟩
  | false =>
    rw [enact_eq_after, EagerCache.store_enact, ← h.effect_eq, contents_after hlocks, h.contents_eq]
    cases heffect : sec.effect c now with
    | idle | shut => exact ⟨rfl, h.tally_eq⟩
    | miss => exact ⟨rfl, congrArg Tally.miss h.tally_eq⟩
    | hit key =>
      have htouch : ({ p.store with tally := p.store.tally.hit }.touch key).tally =
          p.store.tally.hit := Store.tally_touch
      refine ⟨(Store.contents_touch { p.store with tally := p.store.tally.hit } key).symm, ?_⟩
      rw [Cache.after, store_noteHit]
      exact (congrArg Tally.hit h.tally_eq).trans htouch.symm
    | write | clear | close => rw [heffect] at hlocks; cases hlocks

/-- A section keeps the eager cache the mirror of the other. -/
theorem Mirrors.enact (h : Mirrors past c p) (hshut : sec ≠ .shut)
    (hcalm : 0 < c.store.recency.capacity → Calm (past ++ [sec.effect c now])) :
    Mirrors (past ++ [sec.effect c now]) (c.enact sec now) (p.enact sec now) := by
  have hcap : (c.enact sec now).store.recency.capacity = c.store.recency.capacity := by
    rw [enact_eq_after]
    exact capacity_cache_after h.left _
  have hemptied : (c.enact sec now).closed = true → (c.enact sec now).Emptied := by
    intro hclosed'
    cases hclosed : c.closed with
    | true => exact (h.emptied hclosed).enact hclosed sec now
    | false => exact emptied_of_closing hclosed hshut hclosed'
  refine ⟨h.left.enact sec now, ?_, ?_, ?_, hemptied, (h.seen_eq hcalm).1, ?_, (h.seen_eq hcalm).2,
    ?_, fun hnext => ?_⟩
  · rw [EagerCache.store_enact]
    exact h.right.afterAll _
  · rw [enact_eq_after, EagerCache.closed_enact, ← h.effect_eq]
    exact closed_after_eq h.closed_eq _
  · rw [enact_eq_after, batch_after, EagerCache.batch_enact, h.batch_eq]
  · rw [hcap, EagerCache.store_enact, Store.capacity_afterAll h.right, h.capacity_eq]
  · cases hclosed : c.closed with
    | true => exact waiting_of_untouched ((h.emptied hclosed).enact hclosed sec now).touches_eq _
    | false =>
      rw [enact_eq_after]
      exact h.waiting.after h.left.untouched hclosed
  · rw [hcap] at hnext
    exact h.settled_enact (h.settled_eq fun hpos => (hnext hpos).of_append) (h.room hnext)

theorem Mirrors.tell_eq (h : Mirrors past c p) (hshut : sec ≠ .shut)
    (hcalm : 0 < c.store.recency.capacity → Calm (past ++ [sec.effect c now])) :
    c.tell sec now = p.tell sec now := by
  simp only [tell, EagerCache.tell, h.reply_eq hcalm, h.evicts_eq hcalm,
    (h.enact hshut hcalm).tally_eq]

/-! ## Pending touches -/

/-- Every key whose touch is pending is stored. -/
def TouchesStored (c : Cache α β) : Prop :=
  ∀ k ∈ c.touches.toList, ∃ e, c.store.entries[k]? = some e

omit [Std.LawfulEqOrd α] in
theorem touchesStored_of_untouched (h : c.touches.toList = []) : c.TouchesStored := by
  intro k hk
  rw [h] at hk
  cases hk

omit [Std.TransOrd α] [Std.LawfulEqOrd α] in
theorem mem_touches_noteHit {key k : α} (h : k ∈ (c.noteHit key).1.touches.toList) :
    k ∈ c.touches.toList ∨ k = key := by
  unfold noteHit at h
  split at h
  · cases hpush : c.touches.push? key with
    | none => exact .inl (by simpa [hpush] using h)
    | some touches =>
      simp only [hpush, Touches.toList_of_push? hpush, List.mem_append, List.mem_singleton] at h
      exact h
  · exact .inl h

omit [Std.LawfulEqOrd α] in
/-- A hit leaves a touch of a key that it finds stored, and before entries go no touch is pending
any more. -/
theorem TouchesStored.enact (h : c.TouchesStored) (hc : c.Consistent) (sec : Section α β)
    (now : Instant) : (c.enact sec now).TouchesStored := by
  rw [enact_eq_after]
  cases heffect : sec.effect c now with
  | idle | miss | shut => exact h
  | hit key =>
    intro k hk
    rw [Cache.after] at hk ⊢
    rw [store_noteHit]
    rcases mem_touches_noteHit hk with hk | rfl
    · exact h k hk
    · have hlive := live_of_hit heffect
      exact Store.stored_of_live hlive
  | write deeds =>
    cases hclosed : c.closed with
    | true =>
      rw [Cache.after, if_pos hclosed]
      exact h
    | false => exact touchesStored_of_untouched (untouched_after hc.untouched hclosed rfl)
  | clear | close => exact touchesStored_of_untouched rfl

theorem TouchesStored.enactAll (h : c.TouchesStored) (hc : c.Consistent)
    (run : List (Section α β × Instant)) : (c.enactAll run).TouchesStored := by
  induction run generalizing c with
  | nil => exact h
  | cons step run ih => exact ih (h.enact hc step.1 step.2) (hc.enact step.1 step.2)

/-- What is stored stays so while other keys are replayed. -/
theorem TouchesStored.stored (h : c.TouchesStored) {earlier later : List α} {key : α}
    (hsplit : c.touches.toList = earlier ++ key :: later) :
    ∃ e, (c.store.touchAll earlier).entries[key]? = some e := by
  obtain ⟨e, he⟩ := h key (by simp [hsplit])
  have hrow : (c.store.touchAll earlier).contents[key]? = some e.content := by
    rw [Store.contents_touchAll, Store.getElem?_contents, he]
    rfl
  rw [Store.getElem?_contents, Option.map_eq_some_iff] at hrow
  obtain ⟨f, hf, -⟩ := hrow
  exact ⟨f, hf⟩

/-! ## Runs -/

/-- A run tells and leaves the same, whichever of the two caches it begins with. -/
structure Mirrored (c : Cache α β) (p : EagerCache α β) (run : List (Section α β × Instant)) :
    Prop where
  tellAll_eq : c.tellAll run = p.tellAll run
  /-- If there was room for the last touches too, to replay those pending gives the eager store. -/
  store_eq : (0 < c.store.recency.capacity → CalmThroughout (c.effects run)) →
    (c.enactAll run).store.touchAll (c.enactAll run).touches.toList = (p.enactAll run).store
  /-- A key whose touch is pending is still stored when its turn comes. -/
  stored : ∀ (earlier later : List α) (key : α),
    (c.enactAll run).touches.toList = earlier ++ key :: later →
      ∃ e, ((c.enactAll run).store.touchAll earlier).entries[key]? = some e

omit [Std.LawfulEqOrd α] in
/-- All pending touches replayed in order give the settled store. -/
theorem settled_eq_touchAll (h : c.Consistent) :
    c.settled = c.store.touchAll c.touches.toList := by
  by_cases hcap : c.store.recency.capacity = 0
  · rw [settled_of_unbounded hcap, h.untouched hcap]
    rfl
  · exact settled_of_bounded (by omega)

theorem Mirrors.enactAll (h : Mirrors past c p) {run : List (Section α β × Instant)}
    (hshut : ∀ step ∈ run, step.1 ≠ .shut)
    (hcalm : 0 < c.store.recency.capacity → Calm (past ++ c.effects run)) :
    Mirrors (past ++ c.effects run) (c.enactAll run) (p.enactAll run) ∧
      c.tellAll run = p.tellAll run := by
  induction run generalizing past c p with
  | nil =>
    rw [effects_nil, List.append_nil]
    exact ⟨h, rfl⟩
  | cons step run ih =>
    obtain ⟨sec, now⟩ := step
    have hsec : sec ≠ .shut := hshut (sec, now) (by simp)
    rw [effects_cons, List.append_cons] at hcalm ⊢
    have hone : 0 < c.store.recency.capacity → Calm (past ++ [sec.effect c now]) :=
      fun hpos => (hcalm hpos).of_append
    have hcap : (c.enact sec now).store.recency.capacity = c.store.recency.capacity :=
      capacity_enactAll h.left [(sec, now)]
    obtain ⟨hmirrors, htell⟩ := ih (h.enact hsec hone) (fun s hs => hshut s (by simp [hs]))
      (by rwa [hcap])
    refine ⟨hmirrors, ?_⟩
    rw [tellAll, EagerCache.tellAll, h.tell_eq hsec hone, htell]

/-- Take sections of any callers one after the other: operations, parts of calls with anything their
loaders do in between, batches of sweeps, with a caller who closes the cache marking and clearing it
in one go. The clock may show anything. If no more hits lie between two write sections than touches
can be kept, which is to be asked for only where an order of use is kept, then what is told of the
sections is the same for an eager cache, and its store is the one that the pending touches lead
to. -/
theorem mirrored_run (capacity batch : Nat) {run : List (Section α β × Instant)}
    (hshut : ∀ step ∈ run, step.1 ≠ .shut)
    (hcalm : 0 < capacity → Calm ((empty capacity batch).effects run)) :
    Mirrored (empty capacity batch) (.empty capacity batch) run := by
  have hempty : (empty capacity batch : Cache α β).Consistent := consistent_empty capacity batch
  obtain ⟨hmirrors, htell⟩ := (mirrors_empty (α := α) (β := β) capacity batch).enactAll hshut hcalm
  refine ⟨htell, fun hthroughout => ?_, fun earlier later key => ?_⟩
  · rw [← settled_eq_touchAll hmirrors.left]
    refine hmirrors.settled_eq fun hpos => hthroughout ?_
    rwa [capacity_enactAll hempty] at hpos
  · exact ((touchesStored_of_untouched rfl).enactAll hempty run).stored

/-- A loader looks up and writes other keys, and the clock goes back meanwhile. Its write replays
the hits so far and evicts the second key; what it loads evicts the first one, and the last hit is
still pending. -/
theorem mirrored_run_of_busy_loader :
    let run : List (Section Nat Nat × Instant) :=
      [(.perform (.setAll [(1, some 10), (2, some 20)] .forever), .clamp 5),
        (.perform (.get 1), .clamp 6), (.look ⟨.getOrSet, 3, .ofMillis 4⟩, .clamp 7),
        (.perform (.get 2), .clamp 2), (.perform (.get 1), .clamp 3),
        (.perform (.set 4 (some 40) .forever), .clamp 1),
        (.finish ⟨.getOrSet, 3, .ofMillis 4⟩ (.ok (some 30)) (.clamp 4), .clamp 7),
        (.sweepBatch .asListed, .clamp 6), (.perform (.get 3), .clamp 7)]
    ((empty 2 1).tellAll run).map (·.evicted) =
        [[(1, []), (2, [])], [], [], [], [], [(4, [2])], [(3, [1])], [], []] ∧
      ((empty 2 1).enactAll run).touches.toList = [3] ∧
      Mirrored (empty 2 1) (.empty 2 1) run := by
  intro run
  have hshut : ∀ step ∈ run, step.1 ≠ .shut := by simp [run]
  have hcalm : Calm ((empty 2 1).effects run) := calm_of_length_le (by cbv)
  refine ⟨?_, ?_, mirrored_run 2 1 hshut fun _ => hcalm⟩ <;>
  · clear hshut hcalm
    subst run
    cbv

end Cache

end ExpiringCache
