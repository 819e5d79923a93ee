import ExpiringCache.Proofs.Callers
import ExpiringCache.Proofs.Indistinct

/-!
# Closing is final

A caller who closes a cache marks it first and clears it when the lock is free. Meanwhile a loader
may still run under the lock, and its value is then stored in spite of the mark. Once the cache has
been cleared there is nothing in it, and whatever comes later finds nothing and leaves nothing.

1. **Refusals** (`Operation.refusal`, `Job.refusal`): what callers are told by a closed cache.
2. **Spent caches** (`Cache.Spent`): they are closed and empty, and refuse everything.
3. **Sealed crowds** (`Crowd.Sealed`): a spent cache, and nobody who might still store something.
   Every step keeps it so (`Sealed.step`).
4. **Up to the clearing** (`Crowd.Orderly`): a caller who marks the cache leaves the crowd sealed.
5. **Every schedule** (`closed_for_good`).
-/

namespace ExpiringCache

/-- What an operation answers if there is nothing in the cache and it may do nothing. -/
def Operation.refusal {α β : Type} : Operation α β → Answer α β
  | .set .. | .setAll .. | .clear | .close => .done
  | .setIfAbsent .. | .contains _ => .flag false
  | .get _ | .getOrSet .. | .remove _ => .value none
  | .timeLeft _ | .setLifetime .. => .timeLeft .absent
  | .update .. => .replaced none false
  | .size => .count 0
  | .pairs => .pairs []
  | .keys => .keys []
  | .values => .values []

namespace Job

variable {α β : Type}

/-- What a caller is told by a closed cache. A loader that needs no lock runs all the same, and if
it fails, its fault is the result. -/
def refusal : Job α β → Except Fault (Answer α β)
  | .perform op => .ok op.refusal
  | .compute ⟨.setIfAbsent, _, _⟩ _ => .ok (.flag false)
  | .compute ⟨.getOrSetLocked, _, _⟩ _ => .ok (.value none)
  | .compute ⟨.getOrSet, _, _⟩ outcome => outcome.map fun _ => .value none
  | .sweep | .startSweeper _ => .ok .done

/-- A caller is refused, or runs a loader only if that needs no lock. -/
def Quiet (job : Job α β) : Progress α β → Prop
  | .leaving result | .finished result => result = job.refusal
  | .loading => ∃ call outcome, job = .compute call outcome ∧ call.form = .getOrSet
  | .ready | .waiting | .checking | .closing | .sweeping => True

end Job

variable {ι α β : Type} [Ord α] [Std.TransOrd α]

namespace Cache

variable {c : Cache α β} {now : Instant}

/-! ## Spent caches -/

/-- The cache is marked as closed and has no sweeper. -/
def IsShut (c : Cache α β) : Prop := c.closed = true ∧ c.sweeper = none

/-- The cache is closed, and nothing is left in it. -/
structure Spent (c : Cache α β) : Prop where
  closed : c.closed = true
  sweeper_eq : c.sweeper = none
  entries_eq : c.store.entries = ∅
  deadlines_eq : c.store.deadlines = .empty
  order_eq : c.store.recency.order = ∅
  touches_eq : c.touches.toList = []

omit [Std.TransOrd α] in
theorem IsShut.clear (h : c.IsShut) : c.clear.cache.Spent := ⟨h.1, h.2, rfl, rfl, rfl, rfl⟩

omit [Std.TransOrd α] in
theorem isShut_shut (c : Cache α β) : c.shut.IsShut := ⟨rfl, rfl⟩

/-- Nothing takes the mark away or brings a sweeper back. -/
theorem IsShut.after (h : c.IsShut) (effect : Effect α β) : (c.after effect).IsShut := by
  cases effect with
  | idle | miss | clear => exact h
  | hit key =>
    refine ⟨(closed_noteHit _ key).trans h.1, ?_⟩
    simp only [Cache.after, noteHit]
    split
    · split <;> exact h.2
    · exact h.2
  | write deeds =>
    rw [Cache.after, if_pos h.1]
    exact h
  | shut | close => exact isShut_shut c

omit [Std.TransOrd α] in
theorem attach_of_closed (h : c.closed = true) (sweeper : Option Nat) : c.attach sweeper = c :=
  if_pos h

theorem enter_of_closed (h : c.closed = true) (call : Call α) (now : Instant) :
    (call.enter c now).cache = c := by
  obtain ⟨form, key, lifetime⟩ := call
  cases form <;> simp [Call.enter, writing, h]

theorem IsShut.conclude (h : c.IsShut) (call : Call α) (outcome : Except Fault (Option β))
    (now : Instant) : (call.conclude c outcome now).cache.IsShut := by
  obtain ⟨form, key, lifetime⟩ := call
  cases outcome with
  | error fault => exact h
  | ok value =>
    cases form with
    | setIfAbsent | getOrSetLocked => exact h
    | getOrSet =>
      simp only [Call.conclude, Call.storeUnlocked]
      cases storable? value lifetime with
      | none => exact h
      | some loaded =>
        simp only [writing, h.1, if_true]
        exact h

theorem Spent.live?_eq (h : c.Spent) (key : α) (now : Instant) : c.store.live? key now = none := by
  simp [Store.live?, h.entries_eq]

/-- Whatever section comes, there is still nothing in the cache. -/
theorem Spent.enact (h : c.Spent) (sec : Section α β) (now : Instant) :
    (c.enact sec now).Spent := by
  rw [enact_eq_after]
  cases heffect : sec.effect c now with
  | idle | miss =>
    exact ⟨h.closed, h.sweeper_eq, h.entries_eq, h.deadlines_eq, h.order_eq, h.touches_eq⟩
  | hit key =>
    have hlive := live_of_hit heffect
    simp [h.live?_eq] at hlive
  | write deeds =>
    rw [Cache.after, if_pos h.closed]
    exact h
  | shut => exact ⟨rfl, rfl, h.entries_eq, h.deadlines_eq, h.order_eq, h.touches_eq⟩
  | clear => exact IsShut.clear ⟨h.closed, h.sweeper_eq⟩
  | close => exact (isShut_shut c).clear

theorem Spent.answer_perform (h : c.Spent) (op : Operation α β) (now : Instant) :
    (c.perform op now).answer = .ok op.refusal := by
  cases op with
  | get key => simp [perform, Turn.map, answer_lookup, h.live?_eq, Operation.refusal]
  | contains key => simp [perform, Turn.map, contains, reading, h.live?_eq, Operation.refusal]
  | timeLeft key =>
    simp only [perform, Turn.map, timeLeft, reading, h.live?_eq, Operation.refusal]
    rfl
  | size =>
    simp [perform, Turn.map, size, reading, Store.liveCount, h.entries_eq, Operation.refusal]
  | pairs | keys | values =>
    simp [perform, Turn.map, pairs, keys, values, reading, Store.liveEntries, h.entries_eq,
      Operation.refusal]
  | clear | close => rfl
  | set | setAll => rfl
  | setIfAbsent | getOrSet | remove | update =>
    simp [perform, Turn.map, setIfAbsent, getOrSet, remove, update, writing, h.closed,
      Operation.refusal]
  | setLifetime =>
    simp only [perform, Turn.map, setLifetime, writing, h.closed, Operation.refusal]
    rfl

/-- The first look finds nothing. -/
theorem Spent.quiet_look (h : c.Spent) (call : Call α) (outcome : Except Fault (Option β))
    (now : Instant) :
    (Job.compute call outcome).Quiet (.ofLook (call.look c now).answer) := by
  obtain ⟨form, key, lifetime⟩ := call
  cases form with
  | setIfAbsent =>
    simp only [Call.look, Turn.map, contains, reading, h.live?_eq]
    trivial
  | getOrSetLocked =>
    simp only [Call.look, Turn.map, answer_lookup, h.live?_eq]
    trivial
  | getOrSet =>
    simp only [Call.look, Turn.map, answer_lookup, h.live?_eq]
    exact ⟨_, _, rfl, rfl⟩

/-- The second look is refused. -/
theorem quiet_enter (hclosed : c.closed = true) (call : Call α)
    (outcome : Except Fault (Option β)) (now : Instant) :
    (Job.compute call outcome).Quiet (.ofEnter (call.enter c now).answer) := by
  obtain ⟨form, key, lifetime⟩ := call
  cases form with
  | setIfAbsent | getOrSetLocked =>
    simp only [Call.enter, writing, hclosed, if_true]
    rfl
  | getOrSet => exact ⟨_, _, rfl, rfl⟩

/-- What was loaded without the lock is not stored. -/
theorem conclude_of_closed (hclosed : c.closed = true) (call : Call α)
    (hform : call.form = .getOrSet) (outcome : Except Fault (Option β)) (now : Instant) :
    (call.conclude c outcome now).cache = c ∧
      (call.conclude c outcome now).answer = (Job.compute call outcome).refusal := by
  obtain ⟨form, key, lifetime⟩ := call
  cases hform
  cases outcome with
  | error fault => exact ⟨rfl, rfl⟩
  | ok value =>
    simp only [Call.conclude, Call.storeUnlocked]
    cases storable? value lifetime with
    | none => exact ⟨rfl, rfl⟩
    | some loaded =>
      simp only [writing, hclosed, if_true]
      exact ⟨rfl, rfl⟩

end Cache

namespace Crowd

open Cache

variable [DecidableEq ι] {jobs : ι → Job α β} {s t : Crowd ι α β} {i : ι} {now : Instant}
  {c : Cache α β} {holder : Option ι} {progress : Progress α β}

/-! ## Sealed crowds -/

/-- Nothing is in the cache, and nobody is about to put something there. -/
structure Sealed (jobs : ι → Job α β) (s : Crowd ι α β) : Prop where
  spent : s.cache.Spent
  leaving : ∀ j result, s.progress j = .leaving result → result = (jobs j).refusal
  loading : ∀ j call outcome, s.progress j = .loading → jobs j = .compute call outcome →
    call.form = .getOrSet

omit [Std.TransOrd α] in
theorem Sealed.proceed (h : Sealed jobs s) (hspent : c.Spent) (hquiet : (jobs i).Quiet progress) :
    Sealed jobs (s.proceed i now c holder progress) := by
  refine ⟨hspent, ?_, ?_⟩
  · refine forall_progress_proceed
      (p := fun j progress => ∀ result, progress = .leaving result → result = (jobs j).refusal)
      (fun result hleaving => ?_) fun j _ => h.leaving j
    rwa [hleaving] at hquiet
  · refine forall_progress_proceed (p := fun j progress => ∀ call outcome, progress = .loading →
      jobs j = .compute call outcome → call.form = .getOrSet)
      (fun call outcome hloading hjob => ?_) fun j _ => h.loading j
    rw [hloading, hjob] at hquiet
    obtain ⟨call', outcome', hsame, hform⟩ := hquiet
    cases hsame
    exact hform

/-- Whoever proceeds is refused, or runs a loader that needs no lock. -/
theorem Sealed.step (h : Sealed jobs s) (hstep : Step jobs s t) :
    Sealed jobs t ∧ ∃ m, t.log = s.log ++ [m] ∧ (jobs m.caller).Quiet m.progress := by
  -- the same for every step: what becomes of the cache, and of the one who proceeds
  have hproceed : ∀ {i now c holder progress}, c.Spent → (jobs i).Quiet progress →
      Sealed jobs (s.proceed i now c holder progress) ∧ ∃ m,
        (s.proceed i now c holder progress).log = s.log ++ [m] ∧ (jobs m.caller).Quiet m.progress :=
    fun hspent hquiet => ⟨h.proceed hspent hquiet, _, rfl, hquiet⟩
  cases hstep with
  | @operate i op now hjob hop hready hfree =>
    refine hproceed (h.spent.enact (.perform op) now) ?_
    rw [hjob]
    exact h.spent.answer_perform op now
  | closeAgain now hjob hready hclosed =>
    refine hproceed h.spent ?_
    rw [hjob]
    rfl
  | mark now hjob hready hopen =>
    rw [h.spent.closed] at hopen
    cases hopen
  | clear now hjob hclosing hfree =>
    refine hproceed (IsShut.clear ⟨h.spent.closed, h.spent.sweeper_eq⟩) ?_
    rw [hjob]
    rfl
  | @look i call outcome now hjob hready hfree =>
    refine hproceed (h.spent.enact (.look call) now) ?_
    rw [hjob]
    exact h.spent.quiet_look call outcome now
  | acquire now hwaiting hfree => exact hproceed h.spent trivial
  | @check i call outcome now hjob hchecking =>
    rw [enter_of_closed h.spent.closed]
    refine hproceed h.spent ?_
    rw [hjob]
    exact quiet_enter h.spent.closed call outcome now
  | @concludeLocked i call outcome now hjob hlocks hloading =>
    rw [h.loading i call outcome hloading hjob] at hlocks
    cases hlocks
  | @concludeUnlocked i call outcome now hjob hlocks hloading hfree =>
    obtain ⟨hcache, hanswer⟩ := conclude_of_closed h.spent.closed call
      (h.loading i call outcome hloading hjob) outcome now
    rw [hcache, hanswer]
    refine hproceed h.spent ?_
    rw [hjob]
    rfl
  | @release i result now hleaving => exact hproceed h.spent (h.leaving i result hleaving)
  | @sweepBatch i order now hjob hready hfree =>
    have hanswer : (s.cache.sweepBatch order now).answer = none := by
      simp [Cache.sweepBatch, writing, h.spent.closed]
    rw [hanswer]
    refine hproceed (h.spent.enact (.sweepBatch order) now) ?_
    rw [hjob]
    rfl
  | startSweeper now hjob hready =>
    rw [attach_of_closed h.spent.closed]
    refine hproceed h.spent ?_
    rw [hjob]
    rfl

theorem Sealed.reaches (h : Sealed jobs s) (hreaches : Reaches jobs s t) :
    Sealed jobs t ∧ ∃ more, t.log = s.log ++ more ∧
      ∀ m ∈ more, (jobs m.caller).Quiet m.progress := by
  induction hreaches with
  | refl => exact ⟨h, [], (List.append_nil _).symm, by simp⟩
  | tail _ hstep ih =>
    obtain ⟨hsealed, more, hlog, hmore⟩ := ih
    obtain ⟨hnext, m, hlog', hm⟩ := hsealed.step hstep
    refine ⟨hnext, more ++ [m], by rw [hlog', hlog, List.append_assoc], ?_⟩
    exact List.forall_mem_append.mpr ⟨hmore, List.forall_mem_singleton.mpr hm⟩

/-! ## Up to the clearing -/

theorem Step.isShut (hstep : Step jobs s t) (h : s.cache.IsShut) : t.cache.IsShut := by
  have henact : ∀ sec now, (s.cache.enact sec now).IsShut := fun sec now => by
    rw [enact_eq_after]
    exact h.after _
  cases hstep with
  | @operate i op now => exact henact (.perform op) now
  | @look i call outcome now => exact henact (.look call) now
  | @sweepBatch i order now => exact henact (.sweepBatch order) now
  | mark => exact isShut_shut s.cache
  | closeAgain | acquire | release => exact h
  | clear => exact ⟨h.clear.closed, h.clear.sweeper_eq⟩
  | @check i call outcome now =>
    show (call.enter s.cache now).cache.IsShut
    rwa [enter_of_closed h.1]
  | @concludeLocked i call outcome now | @concludeUnlocked i call outcome now =>
    exact h.conclude call outcome now
  | startSweeper =>
    show (s.cache.attach _).IsShut
    rwa [attach_of_closed h.1]

/-- A caller who has marked the cache waits for the lock, or has left the crowd sealed. -/
structure Orderly (jobs : ι → Job α β) (s : Crowd ι α β) : Prop where
  held : Held jobs s
  shut : ∀ i, s.progress i = .closing → s.cache.IsShut
  marked : ∀ i now, ⟨i, now, .closing⟩ ∈ s.log →
    s.progress i = .closing ∨ (∃ result, s.progress i = .finished result) ∧ Sealed jobs s

omit [Std.TransOrd α] [DecidableEq ι] in
theorem orderly_start (c : Cache α β) : Orderly jobs (start c) where
  held := held_start c
  shut i h := by cases h
  marked i now h := by cases h

omit [Std.TransOrd α] in
/-- With the lock free nobody is about to store something, so to clear the cache seals the crowd. -/
theorem Orderly.sealed_clear (h : Orderly jobs s) (hclosing : s.progress i = .closing)
    (hfree : s.holder = none) (now : Instant) :
    Sealed jobs (s.proceed i now s.cache.clear.cache holder (.finished (.ok .done))) := by
  refine ⟨(h.shut i hclosing).clear, fun j result hj => ?_, fun j call outcome hj hjob => ?_⟩
  · have hji : j ≠ i := by
      rintro rfl
      simp at hj
    rw [progress_proceed_of_ne hji] at hj
    exact absurd (by rw [hj]; trivial) (h.held.not_holds_of_free (j := j) hfree)
  · have hji : j ≠ i := by
      rintro rfl
      simp at hj
    rw [progress_proceed_of_ne hji] at hj
    have hunlocked := h.held.not_holds_of_free (j := j) hfree
    rw [hj, hjob] at hunlocked
    cases hform : call.form with
    | getOrSet => rfl
    | setIfAbsent | getOrSetLocked =>
      exact absurd ⟨call, outcome, rfl, by rw [hform]; rfl⟩ hunlocked

theorem Orderly.step (h : Orderly jobs s) (hstep : Step jobs s t) : Orderly jobs t := by
  have hheld := h.held.step hstep
  have hshut := hstep.isShut
  have hsealed := fun hs : Sealed jobs s => (hs.step hstep).1
  obtain ⟨i, now, c, holder, progress, rfl, hundone, hmarks, hclears⟩ := hstep.proceeds
  refine ⟨hheld, fun j hj => ?_, fun j moment hlog => ?_⟩
  · by_cases hji : j = i
    · subst hji
      rw [progress_proceed_self] at hj
      show c.IsShut
      rw [hmarks hj]
      exact isShut_shut s.cache
    · rw [progress_proceed_of_ne hji] at hj
      exact hshut (h.shut j hj)
  · rcases List.mem_append.mp hlog with hold | hnew
    · by_cases hji : j = i
      · -- who waited to clear the cache has cleared it
        subst hji
        rcases h.marked j moment hold with hclosing | ⟨⟨result, hdone⟩, -⟩
        · obtain ⟨hfree, rfl, rfl⟩ := hclears hclosing
          exact .inr ⟨⟨_, progress_proceed_self⟩, h.sealed_clear hclosing hfree now⟩
        · exact absurd hdone (hundone result)
      · rw [progress_proceed_of_ne hji]
        exact (h.marked j moment hold).imp_right fun hdone => ⟨hdone.1, hsealed hdone.2⟩
    · cases List.mem_singleton.mp hnew
      exact .inl progress_proceed_self

theorem Orderly.reaches (h : Orderly jobs s) (hreaches : Reaches jobs s t) : Orderly jobs t := by
  induction hreaches with
  | refl => exact h
  | tail _ hstep ih => exact ih.step hstep

/-! ## Every schedule -/

/-- Let callers do anything, in steps that follow each other in any order. Once one of them has
marked the cache as closed and is done, the cache is empty and has no sweeper, and stays so whatever
comes. All who are told something from then on are refused, and the only loaders that still begin
are those that need no lock. -/
theorem closed_for_good {c : Cache α β} {jobs : ι → Job α β} {s t : Crowd ι α β}
    (hs : Reaches jobs (start c) s) {i : ι} {now : Instant} (hmark : ⟨i, now, .closing⟩ ∈ s.log)
    {result : Except Fault (Answer α β)} (hdone : s.progress i = .finished result)
    (ht : Reaches jobs s t) :
    t.cache.Spent ∧ ∃ more, t.log = s.log ++ more ∧
      ∀ m ∈ more, (jobs m.caller).Quiet m.progress := by
  have hsealed : Sealed jobs s := by
    rcases ((orderly_start c).reaches hs).marked i now hmark with hclosing | ⟨-, hsealed⟩
    · rw [hclosing] at hdone
      cases hdone
    · exact hsealed
  obtain ⟨hnext, more, hlog, hmore⟩ := hsealed.reaches ht
  exact ⟨hnext.spent, more, hlog, hmore⟩

/-- A loader still stores its value after the mark. Once the cache is cleared, a caller who waited
for the lock, one whose loader is running, a new sweeper and a new write all come to nothing. -/
theorem closed_for_good_after_late_loader :
    let jobs : Nat → Job Nat Nat
      | 0 => .compute ⟨.getOrSetLocked, 1, .forever⟩ (.ok (some 10))
      | 1 => .perform .close
      | 2 => .compute ⟨.getOrSet, 2, .forever⟩ (.ok (some 20))
      | 3 => .compute ⟨.getOrSetLocked, 1, .forever⟩ (.ok (some 30))
      | 4 => .startSweeper (some 1)
      | _ => .perform (.getOrSet 1 (some 50) .forever)
    ∃ s t : Crowd Nat Nat Nat, Reaches jobs (start { (empty 2 1) with sweeper := some 0 }) s ∧
      ⟨1, .clamp 5, .closing⟩ ∈ s.log ∧ s.progress 1 = .finished (.ok .done) ∧
      Reaches jobs s t ∧ t.log.length = s.log.length + 6 ∧ t.cache.Spent ∧
      ∃ more, t.log = s.log ++ more ∧ ∀ m ∈ more, (jobs m.caller).Quiet m.progress := by
  intro jobs
  have hstart : Reaches jobs (start { (empty 2 1) with sweeper := some 0 }) _ := .refl
  have hs := hstart
    |>.step (.look (i := 0) (.clamp 1) rfl rfl rfl)
    |>.step (.look (i := 2) (.clamp 2) rfl rfl rfl)
    |>.step (.look (i := 3) (.clamp 3) rfl rfl rfl)
    |>.step (.acquire (i := 0) (.clamp 4) rfl rfl)
    |>.step (.check (i := 0) (.clamp 4) rfl rfl)
    |>.step (.mark (i := 1) (.clamp 5) rfl rfl rfl)
    |>.step (.concludeLocked (i := 0) (.clamp 6) rfl rfl rfl)
    |>.step (.release (i := 0) (.clamp 6) rfl)
    |>.step (.clear (i := 1) (.clamp 7) rfl rfl rfl)
  have ht := hs.stay
    |>.step (.acquire (i := 3) (.clamp 8) rfl rfl)
    |>.step (.check (i := 3) (.clamp 8) rfl rfl)
    |>.step (.release (i := 3) (.clamp 8) rfl)
    |>.step (.concludeUnlocked (i := 2) (.clamp 9) rfl rfl rfl (.inl rfl))
    |>.step (.startSweeper (i := 4) (.clamp 9) rfl rfl)
    |>.step (.operate (i := 5) (.clamp 9) rfl nofun rfl rfl)
  -- three steps were taken after the mark
  refine ⟨_, _, hs, ?hmark, rfl, ht, rfl, closed_for_good hs ?hmark rfl ht⟩
  exact List.mem_append_left _ <| List.mem_append_left _ <| List.mem_append_left _ <|
    List.mem_append_right _ <| List.mem_singleton_self _

end Crowd

end ExpiringCache
