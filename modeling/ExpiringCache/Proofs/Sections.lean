import ExpiringCache.Cache.Computation
import ExpiringCache.Cache.Sweep
import ExpiringCache.Proofs.Deeds

/-!
# Sections and their effects

Callers reach a cache in sections that may follow each other in any order. Whatever a section
belongs to, it has one of seven effects, and that is all it does to the cache.

1. **Sections** (`Section`, `Cache.enact`): an operation of one section, either part of a computing
   call, a batch of a sweep, or the mark of being closed, which is set without a lock.
2. **Effects** (`Effect`, `Cache.after`): what a section does, as data. A write section has deeds.
3. **Nothing else** (`enact_eq_after`): a section does its effect and nothing else.
4. **Runs** (`Cache.enactAll`, `Cache.effects`): sections one after the other, and their effects.
-/

namespace ExpiringCache

/-- A section of some caller. -/
inductive Section (α β : Type) where
  | perform (op : Operation α β)
  | look (call : Call α)
  /-- The rest of a call, whose loader ends with `outcome`; the clock then shows `later`. -/
  | finish (call : Call α) (outcome : Except Fault (Option β)) (later : Instant)
  | sweepBatch (order : Arrangement α)
  /-- A caller who closes the cache marks it first, and clears it in a section of its own. -/
  | shut

/-- What a section does to a cache. -/
inductive Effect (α β : Type) where
  | idle
  | miss
  | hit (key : α)
  | write (deeds : List (Deed α β))
  | clear
  | shut
  | close

namespace Effect

variable {α β : Type}

/-- The write lock is taken. -/
def locks : Effect α β → Bool
  | write _ | clear | close => true
  | idle | miss | hit _ | shut => false

/-- The section leaves a touch. -/
def isHit : Effect α β → Bool
  | hit _ => true
  | idle | miss | write _ | clear | shut | close => false

theorem not_isHit_of_locks {effect : Effect α β} (h : effect.locks = true) :
    ¬ effect.isHit = true := by
  cases effect <;> simp_all [locks, isHit]

/-- What the section does to the store, sooner or later. -/
def deeds : Effect α β → List (Deed α β)
  | idle | shut => []
  | miss => [.miss]
  | hit key => [.hit key]
  | write deeds => deeds
  | clear | close => [.reset]

end Effect

variable {α β ρ : Type} [Ord α] [Std.TransOrd α]

namespace Cache

/-- The cache with other counters. -/
def tallied (c : Cache α β) (tally : Tally) : Cache α β :=
  { c with store := { c.store with tally } }

/-- The cache after an effect. -/
def after (c : Cache α β) : Effect α β → Cache α β
  | .idle => c
  | .miss => c.tallied c.store.tally.miss
  | .hit key => ((c.tallied c.store.tally.hit).noteHit key).1
  | .write deeds =>
    if c.closed then c else { c.settle with store := c.settle.store.afterAll deeds }
  | .clear => c.clear.cache
  | .shut => c.shut
  | .close => c.shut.clear.cache

/-- The effect of a write section, which has no deeds once the cache is closed. -/
def writes (c : Cache α β) (deeds : Store α β → List (Deed α β)) : Effect α β :=
  .write (if c.closed then [] else deeds c.settle.store)

/-- The effect of a read section that counts. -/
def counts (c : Cache α β) (key : α) (now : Instant) : Effect α β :=
  if (c.store.live? key now).isSome then .hit key else .miss

/-- A section does to the cache what it was begun for. -/
def enact (c : Cache α β) (sec : Section α β) (now : Instant) : Cache α β :=
  match sec with
  | .perform op => (c.perform op now).cache
  | .look call => (call.look c now).cache
  | .finish call outcome later => (call.finish c outcome now later).cache
  | .sweepBatch order => (c.sweepBatch order now).cache
  | .shut => c.shut

end Cache

/-! ## What has which effect -/

namespace Operation

/-- What an operation does to the store in a write section. -/
def deeds (op : Operation α β) (s : Store α β) (now : Instant) : List (Deed α β) :=
  match op with
  | .set key value lifetime => [.put key value lifetime now]
  | .setAll listed lifetime => listed.map fun item => .put item.1 item.2 lifetime now
  | .setIfAbsent key value lifetime =>
    if (s.live? key now).isSome then [] else Deed.putNew key value lifetime now
  | .getOrSet key value lifetime =>
    if (s.live? key now).isSome then [.hit key] else .miss :: Deed.putNew key value lifetime now
  | .remove listed => listed.map .remove
  | .update key value =>
    if (s.live? key now).isSome then
      [match value with
        | some value => .replace key value
        | none => .remove key]
    else []
  | .setLifetime key lifetime =>
    match s.live? key now with
    | none => []
    | some entry =>
      match entry.timeLeftAt now with
      | .error _ => []
      | .ok _ => [if lifetime.isStorable then .extend key lifetime now else .remove key]
  | .get _ | .contains _ | .timeLeft _ | .size | .pairs | .keys | .values | .clear | .close => []

/-- What an operation does to the cache. -/
def effect (op : Operation α β) (c : Cache α β) (now : Instant) : Effect α β :=
  match op with
  | .set .. | .setAll .. | .setIfAbsent .. | .getOrSet .. | .remove _ | .update .. |
    .setLifetime .. => c.writes (op.deeds · now)
  | .get key => c.counts key now
  | .clear => .clear
  | .close => if c.closed then .idle else .close
  | .contains _ | .timeLeft _ | .size | .pairs | .keys | .values => .idle

end Operation

namespace Call

/-- What the first look of a call does to the cache. -/
def lookEffect (call : Call α) (c : Cache α β) (now : Instant) : Effect α β :=
  match call.form with
  | .setIfAbsent => .idle
  | .getOrSet | .getOrSetLocked => c.counts call.key now

/-- What a call that keeps the lock while it loads does to the store. -/
def lockedDeeds (call : Call α) (outcome : Except Fault (Option β)) (s : Store α β)
    (now later : Instant) : List (Deed α β) :=
  if (s.live? call.key now).isSome then
    match call.form with
    | .setIfAbsent => []
    | .getOrSet | .getOrSetLocked => [.touch call.key]
  else
    match outcome with
    | .error _ => []
    | .ok value => Deed.putNew call.key value call.lifetime later

/-- What the rest of a call does to the cache. -/
def finishEffect (call : Call α) (outcome : Except Fault (Option β)) (c : Cache α β)
    (now later : Instant) : Effect α β :=
  match call.form with
  | .setIfAbsent | .getOrSetLocked => c.writes (call.lockedDeeds outcome · now later)
  | .getOrSet =>
    match outcome.map (storable? · call.lifetime) with
    | .ok (some value) => c.writes fun _ => [.insert call.key value call.lifetime later]
    | .ok none | .error _ => .idle

end Call

/-- The moment at which a section that begins at `now` makes its changes. -/
def Section.ends (sec : Section α β) (now : Instant) : Instant :=
  match sec with
  | .finish _ _ later => later
  | .perform _ | .look _ | .sweepBatch _ | .shut => now

/-- What a section does to the cache. -/
def Section.effect (sec : Section α β) (c : Cache α β) (now : Instant) : Effect α β :=
  match sec with
  | .perform op => op.effect c now
  | .look call => call.lookEffect c now
  | .finish call outcome later => call.finishEffect outcome c now later
  | .sweepBatch order => c.writes fun _ => [.purge order now c.batch]
  | .shut => .shut

/-! ## A section does its effect -/

namespace Cache

omit [Std.TransOrd α] in
@[simp] theorem cache_map {σ : Type} (f : ρ → σ) (turn : Turn α β ρ) :
    (turn.map f).cache = turn.cache := rfl

omit [Std.TransOrd α] in
@[simp] theorem cache_reading (c : Cache α β) (look : Store α β → ρ) :
    (c.reading look).cache = c := rfl

/-- The deeds of a body are all that a write section does. -/
theorem cache_writing (c : Cache α β) (refused : ρ) {body : Store α β → Change α β ρ}
    (deeds : Store α β → List (Deed α β)) (h : ∀ s, (body s).store = s.afterAll (deeds s)) :
    (c.writing refused body).cache = c.after (c.writes deeds) := by
  by_cases hclosed : c.closed = true
  · simp [writing, writes, after, hclosed]
  · simp [writing, writes, after, hclosed, h]

theorem cache_lookup (c : Cache α β) (key : α) (now : Instant) :
    (c.lookup key now).cache = c.after (c.counts key now) := by
  cases h : c.store.live? key now <;> simp [lookup, counts, after, tallied, h, Tally.lookup]

theorem cache_perform (c : Cache α β) (op : Operation α β) (now : Instant) :
    (c.perform op now).cache = c.after (op.effect c now) := by
  cases op with
  | set key value lifetime =>
    rw [perform, cache_map]
    exact cache_writing c _ (Operation.deeds (.set key value lifetime) · now)
      fun s => Store.put_snd s key value lifetime now
  | setAll pairs lifetime =>
    rw [perform, cache_map]
    exact cache_writing c _ (Operation.deeds (.setAll pairs lifetime) · now)
      fun s => Store.putAll_snd lifetime now pairs s
  | setIfAbsent key value lifetime =>
    rw [perform, cache_map]
    refine cache_writing c _ (Operation.deeds (.setIfAbsent key value lifetime) · now) fun s => ?_
    cases h : s.live? key now <;> simp [Operation.deeds, h, Store.putNew_snd]
  | get key => exact cache_lookup c key now
  | getOrSet key value lifetime =>
    rw [perform, cache_map]
    refine cache_writing c _ (Operation.deeds (.getOrSet key value lifetime) · now) fun s => ?_
    cases h : s.live? key now <;> simp [Operation.deeds, h, Store.putNew_snd, Store.after]
  | remove keys =>
    rw [perform, cache_map]
    exact cache_writing c _ (Operation.deeds (.remove keys) · now)
      fun s => Store.removeAll_snd now keys s
  | update key value =>
    rw [perform, cache_map]
    refine cache_writing c _ (Operation.deeds (.update key value) · now) fun s => ?_
    cases h : s.live? key now <;> cases value <;> simp [Operation.deeds, h, Store.after]
  | setLifetime key lifetime =>
    rw [perform, cache_map]
    refine cache_writing c _ (Operation.deeds (.setLifetime key lifetime) · now) fun s => ?_
    cases h : s.live? key now with
    | none => simp [Operation.deeds, h]
    | some entry =>
      cases hleft : entry.timeLeftAt now with
      | error fault => simp [Operation.deeds, h, hleft]
      | ok left =>
        by_cases hl : lifetime.isStorable = true <;>
          simp [Operation.deeds, h, hleft, hl, Store.after]
  | close =>
    by_cases hclosed : c.closed = true <;>
      simp [perform, close, Operation.effect, after, hclosed]
  | _ => rfl

theorem cache_look (call : Call α) (c : Cache α β) (now : Instant) :
    (call.look c now).cache = c.after (call.lookEffect c now) := by
  obtain ⟨form, key, lifetime⟩ := call
  cases form with
  | setIfAbsent => rfl
  | getOrSet => exact cache_lookup c key now
  | getOrSetLocked => exact cache_lookup c key now

theorem cache_finish (call : Call α) (outcome : Except Fault (Option β)) (c : Cache α β)
    (now later : Instant) :
    (call.finish c outcome now later).cache = c.after (call.finishEffect outcome c now later) := by
  obtain ⟨form, key, lifetime⟩ := call
  cases form with
  | getOrSet =>
    cases outcome with
    | error fault => rfl
    | ok value =>
      simp only [Call.finish, Call.enter, Call.conclude, Call.storeUnlocked, Call.finishEffect,
        Except.map, cache_map]
      cases hv : storable? value lifetime with
      | none => rfl
      | some loaded =>
        refine cache_writing c _ (fun _ => [.insert key loaded lifetime later]) fun s => ?_
        have hloaded : storable? (some loaded) lifetime = some loaded :=
          storable?_eq_some_iff.mpr ⟨(storable?_eq_some_iff.mp hv).1, rfl⟩
        simp [Store.putNew, hloaded, Store.after]
  | setIfAbsent | getOrSetLocked =>
    by_cases hclosed : c.closed = true
    · simp [Call.finish, Call.enter, writing, Call.finishEffect, writes, after, hclosed]
    · cases hlive : c.settle.store.live? key now <;> cases outcome <;>
        simp [Call.finish, Call.enter, writing, Call.finishEffect, writes, after, hclosed, hlive,
          Call.lockedDeeds, Call.conclude, Call.storeLocked, Store.putNew_snd, Store.after]

/-- The cache may be marked as closed while a caller keeps the lock and loads. It is as if it had
been marked right after. -/
theorem conclude_shut (call : Call α) (hlocks : call.form.locks = true) (c : Cache α β)
    (outcome : Except Fault (Option β)) (now : Instant) :
    (call.conclude c.shut outcome now).cache = (call.conclude c outcome now).cache.shut := by
  obtain ⟨form, key, lifetime⟩ := call
  cases outcome with
  | error fault => rfl
  | ok value =>
    cases form with
    | getOrSet => cases hlocks
    | setIfAbsent | getOrSetLocked => rfl

/-- A section does its effect and nothing else. -/
theorem enact_eq_after (c : Cache α β) (sec : Section α β) (now : Instant) :
    c.enact sec now = c.after (sec.effect c now) := by
  cases sec with
  | perform op => exact cache_perform c op now
  | look call => exact cache_look call c now
  | finish call outcome later => exact cache_finish call outcome c now later
  | sweepBatch order =>
    exact cache_writing c _ (fun _ => [.purge order now c.batch]) fun s => rfl
  | shut => rfl

end Cache

/-! ## Which effects there are -/

theorem Operation.happensAt_deeds (op : Operation α β) {s : Store α β} {now : Instant}
    {deed : Deed α β} (h : deed ∈ op.deeds s now) : deed.HappensAt now := by
  cases op with
  | set key value lifetime =>
    rw [List.mem_singleton.mp h]
    exact Deed.happensAt_put key value lifetime now
  | setAll pairs lifetime =>
    obtain ⟨pair, -, rfl⟩ := List.mem_map.mp h
    exact Deed.happensAt_put pair.1 pair.2 lifetime now
  | setIfAbsent key value lifetime =>
    simp only [Operation.deeds] at h
    split at h
    · cases h
    · exact Deed.happensAt_putNew h
  | getOrSet key value lifetime =>
    simp only [Operation.deeds] at h
    split at h
    · rw [List.mem_singleton.mp h]
      trivial
    · rcases List.mem_cons.mp h with rfl | h
      · trivial
      · exact Deed.happensAt_putNew h
  | remove keys =>
    obtain ⟨key, -, rfl⟩ := List.mem_map.mp h
    trivial
  | update key value =>
    simp only [Operation.deeds] at h
    split at h
    · rw [List.mem_singleton.mp h]
      cases value <;> trivial
    · cases h
  | setLifetime key lifetime =>
    simp only [Operation.deeds] at h
    split at h
    · cases h
    · split at h
      · cases h
      · rw [List.mem_singleton.mp h]
        by_cases hl : lifetime.isStorable = true
        · simp [hl, Deed.HappensAt]
        · simp [hl, Deed.HappensAt]
  | _ => cases h

theorem Call.happensAt_lockedDeeds (call : Call α) {outcome : Except Fault (Option β)}
    {s : Store α β} {now later : Instant} {deed : Deed α β}
    (h : deed ∈ call.lockedDeeds outcome s now later) : deed.HappensAt later := by
  obtain ⟨form, key, lifetime⟩ := call
  simp only [Call.lockedDeeds] at h
  split at h
  · cases form with
    | setIfAbsent => cases h
    | getOrSet | getOrSetLocked =>
      rw [List.mem_singleton.mp h]
      trivial
  · cases outcome with
    | error fault => cases h
    | ok value => exact Deed.happensAt_putNew h

/-- A section counts a lookup, or writes at one moment, or is one of the few that close, clear or do
nothing. -/
theorem Section.effect_cases (sec : Section α β) (c : Cache α β) (now : Instant) :
    (∃ key, sec.effect c now = c.counts key now) ∨
      (∃ deeds : Store α β → List (Deed α β),
        (∀ s, ∀ deed ∈ deeds s, deed.HappensAt (sec.ends now)) ∧
          sec.effect c now = c.writes deeds) ∨
      (sec.effect c now = .close ∧ c.closed = false) ∨
      sec.effect c now = .clear ∨ sec.effect c now = .idle ∨
      (sec.effect c now = .shut ∧ sec = .shut) := by
  cases sec with
  | perform op =>
    have hdeeds : ∀ s, ∀ deed ∈ op.deeds s now, deed.HappensAt now :=
      fun s deed => op.happensAt_deeds
    cases op with
    | get key => exact .inl ⟨key, rfl⟩
    | clear => exact .inr (.inr (.inr (.inl rfl)))
    | close =>
      cases hclosed : c.closed with
      | false => exact .inr (.inr (.inl ⟨by simp [effect, Operation.effect, hclosed], rfl⟩))
      | true =>
        exact .inr (.inr (.inr (.inr (.inl (by simp [effect, Operation.effect, hclosed])))))
    | contains _ | timeLeft _ | size | pairs | keys | values =>
      exact .inr (.inr (.inr (.inr (.inl rfl))))
    | _ => exact .inr (.inl ⟨_, hdeeds, rfl⟩)
  | look call =>
    obtain ⟨form, key, lifetime⟩ := call
    cases form with
    | setIfAbsent => exact .inr (.inr (.inr (.inr (.inl rfl))))
    | getOrSet | getOrSetLocked => exact .inl ⟨key, rfl⟩
  | finish call outcome later =>
    have hdeeds : ∀ s, ∀ deed ∈ call.lockedDeeds outcome s now later, deed.HappensAt later :=
      fun s deed => call.happensAt_lockedDeeds
    obtain ⟨form, key, lifetime⟩ := call
    cases form with
    | setIfAbsent | getOrSetLocked => exact .inr (.inl ⟨_, hdeeds, rfl⟩)
    | getOrSet =>
      simp only [effect, Call.finishEffect]
      split
      · refine .inr (.inl ⟨_, fun s deed hd => ?_, rfl⟩)
        rw [List.mem_singleton.mp hd]
        rfl
      · exact .inr (.inr (.inr (.inr (.inl rfl))))
      · exact .inr (.inr (.inr (.inr (.inl rfl))))
  | sweepBatch order =>
    refine .inr (.inl ⟨fun _ => [.purge order now c.batch], fun s deed hd => ?_, rfl⟩)
    rw [List.mem_singleton.mp hd]
    rfl
  | shut => exact .inr (.inr (.inr (.inr (.inr ⟨rfl, rfl⟩))))

/-- The deeds that a section may do to the store that it finds. -/
inductive Section.Does (c : Cache α β) (now : Instant) : Section α β → Deed α β → Prop
  | miss (sec : Section α β) : Does c now sec .miss
  | hit (sec : Section α β) (key : α) : Does c now sec (.hit key)
  | operation {op : Operation α β} {deed : Deed α β} (h : deed ∈ op.deeds c.settle.store now) :
    Does c now (.perform op) deed
  | locked {call : Call α} {outcome : Except Fault (Option β)} {later : Instant}
    {deed : Deed α β} (hlocks : call.form.locks = true)
    (h : deed ∈ call.lockedDeeds outcome c.settle.store now later) :
    Does c now (.finish call outcome later) deed
  | unlocked {call : Call α} {outcome : Except Fault (Option β)} {later : Instant} {loaded : β}
    (hform : call.form = .getOrSet) :
    Does c now (.finish call outcome later) (.insert call.key loaded call.lifetime later)
  | sweep (order : Arrangement α) : Does c now (.sweepBatch order) (.purge order now c.batch)
  | clear : Does c now (.perform .clear) .reset
  | close : Does c now (.perform .close) .reset

namespace Cache

theorem counts_cases (c : Cache α β) (key : α) (now : Instant) :
    c.counts key now = .miss ∨
      c.counts key now = .hit key ∧ (c.store.live? key now).isSome = true := by
  unfold counts
  split
  case isTrue h => exact .inr ⟨rfl, h⟩
  case isFalse => exact .inl rfl

/-- No section changes the store of a closed cache by a deed. -/
theorem deeds_eq_nil_of_closed {c : Cache α β} (hclosed : c.closed = true) {sec : Section α β}
    {now : Instant} {deeds : List (Deed α β)} (h : sec.effect c now = .write deeds) :
    deeds = [] := by
  rcases sec.effect_cases c now with ⟨key, heq⟩ | ⟨_, -, heq⟩ | ⟨heq, -⟩ | heq | heq | ⟨heq, -⟩
  · rcases c.counts_cases key now with hcount | ⟨hcount, -⟩ <;> simp [heq, hcount] at h
  · rw [heq, writes, if_pos hclosed] at h
    cases h
    rfl
  all_goals simp [heq] at h

/-- Whatever deed a section does, it is one of those that it may do. -/
theorem does_of_mem_deeds {c : Cache α β} {sec : Section α β} {now : Instant} {deed : Deed α β}
    (h : deed ∈ (sec.effect c now).deeds) : sec.Does c now deed := by
  have hcounts : ∀ key, deed ∈ (c.counts key now).deeds → sec.Does c now deed := by
    intro key hdeed
    rcases c.counts_cases key now with hcount | ⟨hcount, -⟩ <;> rw [hcount] at hdeed <;>
      rw [List.mem_singleton.mp hdeed]
    · exact .miss sec
    · exact .hit sec key
  have hwrites : ∀ deeds : Store α β → List (Deed α β), deed ∈ (c.writes deeds).deeds →
      deed ∈ deeds c.settle.store := by
    intro deeds hdeed
    simp only [writes, Effect.deeds] at hdeed
    split at hdeed
    · cases hdeed
    · exact hdeed
  cases sec with
  | perform op =>
    have hop : deed ∈ (c.writes (op.deeds · now)).deeds → (Section.perform op).Does c now deed :=
      fun hdeed => .operation (hwrites (op.deeds · now) hdeed)
    cases op with
    | get key => exact hcounts key h
    | clear =>
      rw [List.mem_singleton.mp h]
      exact .clear
    | close =>
      simp only [Section.effect, Operation.effect] at h
      split at h
      · cases h
      · rw [List.mem_singleton.mp h]
        exact .close
    | contains | timeLeft | size | pairs | keys | values => cases h
    | set | setAll | setIfAbsent | getOrSet | remove | update | setLifetime =>
      exact hop h
  | look call =>
    obtain ⟨form, key, lifetime⟩ := call
    cases form with
    | setIfAbsent => cases h
    | getOrSet | getOrSetLocked => exact hcounts key h
  | finish call outcome later =>
    have hlocked : call.form.locks = true →
        deed ∈ (c.writes (call.lockedDeeds outcome · now later)).deeds →
          (Section.finish call outcome later).Does c now deed := fun hlocks hdeed =>
      .locked hlocks (hwrites (call.lockedDeeds outcome · now later) hdeed)
    obtain ⟨form, key, lifetime⟩ := call
    cases form with
    | setIfAbsent | getOrSetLocked => exact hlocked rfl h
    | getOrSet =>
      simp only [Section.effect, Call.finishEffect] at h
      split at h
      · rename_i loaded _
        rw [List.mem_singleton.mp (hwrites (fun _ => [.insert key loaded lifetime later]) h)]
        exact .unlocked rfl
      · cases h
      · cases h
  | sweepBatch order =>
    rw [List.mem_singleton.mp (hwrites (fun _ => [.purge order now c.batch]) h)]
    exact .sweep order
  | shut => cases h

/-- Whatever a section does, it does at one moment. -/
theorem happensAt_effect {c : Cache α β} {sec : Section α β} {now : Instant} {deed : Deed α β}
    (h : deed ∈ (sec.effect c now).deeds) : deed.HappensAt (sec.ends now) := by
  cases does_of_mem_deeds h with
  | operation hdeed => exact Operation.happensAt_deeds _ hdeed
  | locked _ hdeed => exact Call.happensAt_lockedDeeds _ hdeed
  | unlocked | sweep => rfl
  | miss | hit | clear | close => trivial

/-- A hit finds its key live. -/
theorem live_of_hit {c : Cache α β} {sec : Section α β} {now : Instant} {key : α}
    (h : sec.effect c now = .hit key) : (c.store.live? key now).isSome = true := by
  rcases sec.effect_cases c now with ⟨k, heq⟩ | ⟨_, -, heq⟩ | ⟨heq, -⟩ | heq | heq | ⟨heq, -⟩ <;>
    rw [heq] at h
  · rcases c.counts_cases k now with hmiss | ⟨hhit, hlive⟩
    · rw [hmiss] at h
      cases h
    · rw [hhit] at h
      cases h
      exact hlive
  all_goals cases h

/-! ## Runs -/

/-- Sections one after the other, each at its own reading of the clock. -/
def enactAll (c : Cache α β) (run : List (Section α β × Instant)) : Cache α β :=
  run.foldl (fun c step => c.enact step.1 step.2) c

/-- What the sections of a run do. -/
def effects : Cache α β → List (Section α β × Instant) → List (Effect α β)
  | _, [] => []
  | c, (sec, now) :: rest => sec.effect c now :: effects (c.enact sec now) rest

@[simp] theorem enactAll_nil (c : Cache α β) : c.enactAll [] = c := rfl

@[simp] theorem enactAll_cons (c : Cache α β) (step : Section α β × Instant)
    (run : List (Section α β × Instant)) :
    c.enactAll (step :: run) = (c.enact step.1 step.2).enactAll run := rfl

@[simp] theorem effects_nil (c : Cache α β) : c.effects [] = [] := rfl

@[simp] theorem effects_cons (c : Cache α β) (step : Section α β × Instant)
    (run : List (Section α β × Instant)) :
    c.effects (step :: run) = step.1.effect c step.2 :: (c.enact step.1 step.2).effects run := rfl

theorem effects_append (c : Cache α β) (run more : List (Section α β × Instant)) :
    c.effects (run ++ more) = c.effects run ++ (c.enactAll run).effects more := by
  induction run generalizing c with
  | nil => rfl
  | cons step run ih => simp only [List.cons_append, effects_cons, enactAll_cons, ih]

end Cache

end ExpiringCache
