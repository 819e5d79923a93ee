import Mathlib.Logic.Function.Basic
import Mathlib.Logic.Relation
import ExpiringCache.Proofs.Sections
import ExpiringCache.Session.Basic

/-!
# Callers at the same time

Any number of callers share a cache, each with one thing to do. They proceed a step at a time, in
any order and at any moments: where one waits, for the lock or for a loader, others come in between.
A caller whose loader runs under the write lock keeps the lock over many steps of others, who can do
meanwhile only what takes no lock.

1. **Jobs and progress** (`Job`, `Progress`): what a caller came for, and how far it has come.
2. **Steps** (`Crowd.Step`): one caller proceeds. Every step is logged.
3. **The lock** (`Crowd.Held`): who may use the store alone is the one who holds the lock.
4. **Going on** (`Going.exists_step`, `Reaches.countP_add_left_le`): nobody is stuck as long as
   loaders end, and every caller who does not sweep is done after a few steps.
-/

namespace ExpiringCache

/-- What a caller came for. -/
inductive Job (α β : Type) where
  | perform (op : Operation α β)
  /-- A call whose loader ends with `outcome`, should it run. -/
  | compute (call : Call α) (outcome : Except Fault (Option β))
  | sweep
  /-- Another sweeper in place of the one that serves the cache, or none. -/
  | startSweeper (sweeper : Option Nat)

/-- How far a caller has come. -/
inductive Progress (α β : Type) where
  | ready
  /-- The first look found nothing; the caller waits for the write lock. -/
  | waiting
  /-- The caller has the write lock and is about to look again. -/
  | checking
  | loading
  /-- The caller has its result and is about to release the lock. -/
  | leaving (result : Except Fault (Answer α β))
  /-- The caller has marked the cache as closed and waits for the lock to clear it. -/
  | closing
  /-- A batch was full; the sweep goes on. -/
  | sweeping
  | finished (result : Except Fault (Answer α β))
deriving DecidableEq

/-- Something that a caller has come to. -/
structure Milestone (ι α β : Type) where
  caller : ι
  moment : Instant
  progress : Progress α β

namespace Progress

variable {α β : Type}

def ofLook : Phase α β → Progress α β
  | .waiting => .waiting
  | .loading => .loading
  | .finished result => .finished result

/-- The second look ends the call or starts the loader. -/
def ofEnter : Phase α β → Progress α β
  | .waiting | .loading => .loading
  | .finished result => .leaving result

/-- A sweep ends with a batch that is not full, or when the cache is closed. -/
def ofBatch (batch : Nat) : Option Nat → Progress α β
  | none => .finished (.ok .done)
  | some taken => if taken < batch then .finished (.ok .done) else .sweeping

theorem ofLook_ne_closing (phase : Phase α β) : ofLook phase ≠ .closing := by
  cases phase <;> nofun

theorem ofEnter_ne_closing (phase : Phase α β) : ofEnter phase ≠ .closing := by
  cases phase <;> nofun

theorem ofBatch_ne_closing (batch : Nat) (taken : Option Nat) :
    (ofBatch batch taken : Progress α β) ≠ .closing := by
  cases taken with
  | none => nofun
  | some n =>
    simp only [ofBatch]
    split <;> nofun

/-- A caller with this job holds the write lock here. -/
def holds (job : Job α β) : Progress α β → Prop
  | checking | leaving _ => True
  | loading => ∃ call outcome, job = .compute call outcome ∧ call.form.locks = true
  | ready | waiting | closing | sweeping | finished _ => False

/-- A caller with this job may come to this point. -/
def fits (job : Job α β) : Progress α β → Prop
  | ready | leaving _ | finished _ => True
  | waiting | checking => ∃ call outcome, job = .compute call outcome ∧ call.form.locks = true
  | loading => ∃ call outcome, job = .compute call outcome
  | closing => job = .perform .close
  | sweeping => job = .sweep

/-- How many steps are left at most for a caller who does not sweep. -/
def left : Progress α β → Nat
  | ready => 5
  | waiting => 4
  | checking => 3
  | loading => 2
  | leaving _ | closing | sweeping => 1
  | finished _ => 0

theorem left_ofLook_lt (phase : Phase α β) : (ofLook phase).left < 5 := by
  cases phase <;> simp [ofLook, left]

theorem left_ofEnter_lt (phase : Phase α β) : (ofEnter phase).left < 3 := by
  cases phase <;> simp [ofEnter, left]

end Progress

variable {ι α β : Type} [Ord α] [Std.TransOrd α]

namespace Cache

/-- Gives an open cache another sweeper, or none. -/
def attach (c : Cache α β) (sweeper : Option Nat) : Cache α β :=
  if c.closed then c else { c with sweeper }

end Cache

omit [Std.TransOrd α] in
/-- What a session does to its cache when it starts a sweeper. -/
theorem Session.exists_cache_startSweeper (s : Session α β) (interval : Nat) :
    ∃ sweeper, (s.startSweeper interval).cache = s.cache.attach sweeper := by
  cases hclosed : s.cache.closed with
  | true => exact ⟨none, by simp [startSweeper, Cache.attach, hclosed]⟩
  | false =>
    simp only [startSweeper, Cache.attach, hclosed, Bool.false_eq_true, if_false]
    split
    · exact ⟨none, rfl⟩
    · exact ⟨some s.sweepers.size, rfl⟩

/-- A cache with its callers. -/
structure Crowd (ι α β : Type) [Ord α] where
  cache : Cache α β
  /-- Who keeps the write lock over several steps. -/
  holder : Option ι
  progress : ι → Progress α β
  /-- Everything that anybody has come to, in order. -/
  log : List (Milestone ι α β)

namespace Crowd

/-- Nobody has begun. -/
def start (c : Cache α β) : Crowd ι α β := ⟨c, none, fun _ => .ready, []⟩

variable [DecidableEq ι]

/-- One caller comes to something, and leaves the cache and the lock as given. -/
def proceed (s : Crowd ι α β) (i : ι) (now : Instant) (cache : Cache α β) (holder : Option ι)
    (progress : Progress α β) : Crowd ι α β where
  cache := cache
  holder := holder
  progress := Function.update s.progress i progress
  log := s.log ++ [⟨i, now, progress⟩]

/-- One step of one caller. Sections wait for the lock to be free, unless they are of its holder. -/
inductive Step (jobs : ι → Job α β) : Crowd ι α β → Crowd ι α β → Prop
  | operate {s : Crowd ι α β} {i : ι} {op : Operation α β} (now : Instant)
    (hjob : jobs i = .perform op) (hop : op ≠ .close) (hready : s.progress i = .ready)
    (hfree : s.holder = none) :
    Step jobs s (s.proceed i now (s.cache.perform op now).cache none
      (.finished (s.cache.perform op now).answer))
  /-- Closing a closed cache does nothing and waits for nobody. -/
  | closeAgain {s : Crowd ι α β} {i : ι} (now : Instant) (hjob : jobs i = .perform .close)
    (hready : s.progress i = .ready) (hclosed : s.cache.closed = true) :
    Step jobs s (s.proceed i now s.cache s.holder (.finished (.ok .done)))
  /-- The mark of being closed is set without the lock. -/
  | mark {s : Crowd ι α β} {i : ι} (now : Instant) (hjob : jobs i = .perform .close)
    (hready : s.progress i = .ready) (hopen : s.cache.closed = false) :
    Step jobs s (s.proceed i now s.cache.shut s.holder .closing)
  | clear {s : Crowd ι α β} {i : ι} (now : Instant) (hjob : jobs i = .perform .close)
    (hclosing : s.progress i = .closing) (hfree : s.holder = none) :
    Step jobs s (s.proceed i now s.cache.clear.cache none (.finished (.ok .done)))
  | look {s : Crowd ι α β} {i : ι} {call : Call α} {outcome : Except Fault (Option β)}
    (now : Instant) (hjob : jobs i = .compute call outcome) (hready : s.progress i = .ready)
    (hfree : s.holder = none) :
    Step jobs s (s.proceed i now (call.look s.cache now).cache none
      (.ofLook (call.look s.cache now).answer))
  | acquire {s : Crowd ι α β} {i : ι} (now : Instant) (hwaiting : s.progress i = .waiting)
    (hfree : s.holder = none) :
    Step jobs s (s.proceed i now s.cache (some i) .checking)
  | check {s : Crowd ι α β} {i : ι} {call : Call α} {outcome : Except Fault (Option β)}
    (now : Instant) (hjob : jobs i = .compute call outcome) (hchecking : s.progress i = .checking) :
    Step jobs s (s.proceed i now (call.enter s.cache now).cache s.holder
      (.ofEnter (call.enter s.cache now).answer))
  /-- The loader is done, and its value is stored under the lock that the caller holds. -/
  | concludeLocked {s : Crowd ι α β} {i : ι} {call : Call α} {outcome : Except Fault (Option β)}
    (now : Instant) (hjob : jobs i = .compute call outcome) (hlocks : call.form.locks = true)
    (hloading : s.progress i = .loading) :
    Step jobs s (s.proceed i now (call.conclude s.cache outcome now).cache s.holder
      (.leaving (call.conclude s.cache outcome now).answer))
  /-- The loader is done, and its value, if it may be stored, is stored in a section of its own. -/
  | concludeUnlocked {s : Crowd ι α β} {i : ι} {call : Call α} {outcome : Except Fault (Option β)}
    (now : Instant) (hjob : jobs i = .compute call outcome) (hlocks : call.form.locks = false)
    (hloading : s.progress i = .loading)
    (hfree : s.holder = none ∨
      ∀ value, outcome = .ok value → storable? value call.lifetime = none) :
    Step jobs s (s.proceed i now (call.conclude s.cache outcome now).cache s.holder
      (.finished (call.conclude s.cache outcome now).answer))
  | release {s : Crowd ι α β} {i : ι} {result : Except Fault (Answer α β)} (now : Instant)
    (hleaving : s.progress i = .leaving result) :
    Step jobs s (s.proceed i now s.cache none (.finished result))
  | sweepBatch {s : Crowd ι α β} {i : ι} (order : Arrangement α) (now : Instant)
    (hjob : jobs i = .sweep) (hready : s.progress i = .ready ∨ s.progress i = .sweeping)
    (hfree : s.holder = none) :
    Step jobs s (s.proceed i now (s.cache.sweepBatch order now).cache none
      (.ofBatch s.cache.batch (s.cache.sweepBatch order now).answer))
  | startSweeper {s : Crowd ι α β} {i : ι} {sweeper : Option Nat} (now : Instant)
    (hjob : jobs i = .startSweeper sweeper) (hready : s.progress i = .ready) :
    Step jobs s (s.proceed i now (s.cache.attach sweeper) s.holder (.finished (.ok .done)))

/-- Any number of steps. -/
def Reaches (jobs : ι → Job α β) : Crowd ι α β → Crowd ι α β → Prop :=
  Relation.ReflTransGen (Step jobs)

variable {jobs : ι → Job α β} {s t u : Crowd ι α β} {i j : ι} {now : Instant} {c : Cache α β}
  {holder : Option ι} {progress : Progress α β}

omit [Std.TransOrd α] in
@[simp] theorem progress_proceed_self : (s.proceed i now c holder progress).progress i = progress :=
  Function.update_self ..

omit [Std.TransOrd α] in
theorem progress_proceed_of_ne (h : j ≠ i) :
    (s.proceed i now c holder progress).progress j = s.progress j := Function.update_of_ne h ..

omit [Std.TransOrd α] in
/-- What holds of everybody, after one caller has proceeded. -/
theorem forall_progress_proceed {p : ι → Progress α β → Prop} (hself : p i progress)
    (hothers : ∀ j, j ≠ i → p j (s.progress j)) (j : ι) :
    p j ((s.proceed i now c holder progress).progress j) := by
  by_cases hji : j = i
  · subst hji
    rwa [progress_proceed_self]
  · rw [progress_proceed_of_ne hji]
    exact hothers j hji

/-- Nobody need go on. -/
theorem Reaches.stay (_ : Reaches jobs s t) : Reaches jobs t t := .refl

theorem Reaches.step (h : Reaches jobs s t) (hstep : Step jobs t u) : Reaches jobs s u :=
  h.tail hstep

/-- A step takes one caller to what the log then ends with. The caller was not done before; one who
then waits to clear the cache has marked it, and one who waited has cleared it. -/
theorem Step.proceeds (h : Step jobs s t) :
    ∃ i now c holder progress, t = s.proceed i now c holder progress ∧
      (∀ result, s.progress i ≠ .finished result) ∧
      (progress = .closing → c = s.cache.shut) ∧
      (s.progress i = .closing → s.holder = none ∧ c = s.cache.clear.cache ∧
        progress = .finished (.ok .done)) := by
  cases h with
  | mark now hjob hbefore =>
    exact ⟨_, _, _, _, _, rfl, by simp [hbefore], fun _ => rfl, by simp [hbefore]⟩
  | clear now hjob hclosing hfree =>
    exact ⟨_, _, _, _, _, rfl, by simp [hclosing], by simp, fun _ => ⟨hfree, rfl, rfl⟩⟩
  | operate _ _ _ hbefore | closeAgain _ _ hbefore | acquire _ hbefore
  | concludeLocked _ _ _ hbefore | concludeUnlocked _ _ _ hbefore | release _ hbefore
  | startSweeper _ _ hbefore =>
    exact ⟨_, _, _, _, _, rfl, by simp [hbefore], by simp, by simp [hbefore]⟩
  | look _ _ hbefore =>
    exact ⟨_, _, _, _, _, rfl, by simp [hbefore],
      fun h => absurd h (Progress.ofLook_ne_closing _), by simp [hbefore]⟩
  | check _ _ hbefore =>
    exact ⟨_, _, _, _, _, rfl, by simp [hbefore],
      fun h => absurd h (Progress.ofEnter_ne_closing _), by simp [hbefore]⟩
  | sweepBatch order now hjob hbefore =>
    rcases hbefore with hbefore | hbefore <;>
      exact ⟨_, _, _, _, _, rfl, by simp [hbefore],
        fun h => absurd h (Progress.ofBatch_ne_closing _ _), by simp [hbefore]⟩

/-- The log only grows. -/
theorem Reaches.exists_log_eq (h : Reaches jobs s t) : ∃ more, t.log = s.log ++ more := by
  induction h with
  | refl => exact ⟨[], (List.append_nil _).symm⟩
  | tail _ hstep ih =>
    obtain ⟨more, hmore⟩ := ih
    obtain ⟨i, now, c, holder, progress, rfl, -⟩ := hstep.proceeds
    exact ⟨more ++ [⟨i, now, progress⟩], by simp [proceed, hmore]⟩

/-! ## The lock -/

/-- Whoever is to hold the lock holds it. -/
def Held (jobs : ι → Job α β) (s : Crowd ι α β) : Prop :=
  ∀ j, (s.progress j).holds (jobs j) → s.holder = some j

omit [Std.TransOrd α] [DecidableEq ι] in
theorem held_start (c : Cache α β) : Held jobs (start c) := fun _ h => h.elim

omit [Std.TransOrd α] [DecidableEq ι] in
/-- Nobody else holds it. -/
theorem Held.not_holds_of_ne (h : Held jobs s) (hi : (s.progress i).holds (jobs i)) (hj : j ≠ i) :
    ¬ (s.progress j).holds (jobs j) := by
  intro hholds
  have hsame := (h i hi).symm.trans (h j hholds)
  exact hj (Option.some.inj hsame).symm

omit [Std.TransOrd α] [DecidableEq ι] in
theorem Held.not_holds_of_free (h : Held jobs s) (hfree : s.holder = none) :
    ¬ (s.progress j).holds (jobs j) := by
  intro hholds
  have hsome := h j hholds
  rw [hfree] at hsome
  cases hsome

omit [Std.TransOrd α] in
/-- What becomes of the lock when one caller proceeds and no other caller held it. -/
theorem Held.proceed (h : Held jobs s)
    (hself : progress.holds (jobs i) → holder = some i)
    (hothers : ∀ j, j ≠ i → (s.progress j).holds (jobs j) → holder = s.holder) :
    Held jobs (s.proceed i now c holder progress) := by
  exact forall_progress_proceed (p := fun j progress => progress.holds (jobs j) → holder = some j)
    hself fun j hji hj => (hothers j hji hj).trans (h j hj)

/-- The first look goes on to a loader only where that runs without the lock. -/
theorem not_holds_ofLook (call : Call α) (outcome : Except Fault (Option β)) (c : Cache α β)
    (now : Instant) :
    ¬ (Progress.ofLook (call.look c now).answer).holds (.compute call outcome) := by
  obtain ⟨form, key, lifetime⟩ := call
  have hunlocked : ¬ Progress.holds (.compute ⟨.getOrSet, key, lifetime⟩ outcome)
      (.loading : Progress α β) := by
    rintro ⟨call, outcome', hjob, hlocks⟩
    cases hjob
    cases hlocks
  cases form with
  | setIfAbsent =>
    simp only [Call.look, Turn.map]
    split <;> exact id
  | getOrSetLocked =>
    simp only [Call.look, Turn.map]
    split <;> exact id
  | getOrSet =>
    simp only [Call.look, Turn.map]
    split
    · exact id
    · exact hunlocked

theorem Held.step (h : Held jobs s) (hstep : Step jobs s t) : Held jobs t := by
  cases hstep with
  | operate now hjob hop hready hfree =>
    exact h.proceed False.elim fun j _ hj => absurd hj (h.not_holds_of_free hfree)
  | closeAgain | mark | startSweeper => exact h.proceed False.elim fun _ _ _ => rfl
  | clear now hjob hclosing hfree =>
    exact h.proceed False.elim fun j _ hj => absurd hj (h.not_holds_of_free hfree)
  | @look i call outcome now hjob hready hfree =>
    refine h.proceed (fun hholds => ?_) fun j _ hj => absurd hj (h.not_holds_of_free hfree)
    rw [hjob] at hholds
    exact absurd hholds (not_holds_ofLook call outcome s.cache now)
  | acquire now hwaiting hfree =>
    exact h.proceed (fun _ => rfl) fun j _ hj => absurd hj (h.not_holds_of_free hfree)
  | @check i call outcome now hjob hchecking =>
    exact h.proceed (fun _ => h i (by rw [hchecking]; trivial)) fun _ _ _ => rfl
  | @concludeLocked i call outcome now hjob hlocks hloading =>
    exact h.proceed (fun _ => h i (by rw [hloading]; exact ⟨call, outcome, hjob, hlocks⟩))
      fun _ _ _ => rfl
  | concludeUnlocked => exact h.proceed False.elim fun _ _ _ => rfl
  | @release i result now hleaving =>
    exact h.proceed False.elim fun j hj hholds =>
      absurd hholds (h.not_holds_of_ne (i := i) (by rw [hleaving]; trivial) hj)
  | @sweepBatch i order now hjob hready hfree =>
    refine h.proceed (fun hholds => ?_) fun j _ hj => absurd hj (h.not_holds_of_free hfree)
    rw [hjob] at hholds
    cases hanswer : (s.cache.sweepBatch order now).answer with
    | none => simp [hanswer, Progress.ofBatch, Progress.holds] at hholds
    | some taken =>
      simp only [hanswer, Progress.ofBatch] at hholds
      split at hholds <;> exact hholds.elim

theorem Held.reaches (h : Held jobs s) (hreaches : Reaches jobs s t) : Held jobs t := by
  induction hreaches with
  | refl => exact h
  | tail _ hstep ih => exact ih.step hstep

/-! ## Going on -/

/-- The lock is with nobody, or with a caller who will release it, and all are where their jobs may
take them. -/
structure Going (jobs : ι → Job α β) (s : Crowd ι α β) : Prop where
  held : Held jobs s
  kept : ∀ j, s.holder = some j → (s.progress j).holds (jobs j)
  fits : ∀ j, (s.progress j).fits (jobs j)

omit [Std.TransOrd α] [DecidableEq ι] in
theorem going_start (c : Cache α β) : Going jobs (start c) where
  held := held_start c
  kept _ h := by cases h
  fits _ := trivial

omit [Std.TransOrd α] in
theorem Going.proceed (h : Going jobs s) (hheld : Held jobs (s.proceed i now c holder progress))
    (hkept : holder = some i → progress.holds (jobs i))
    (hothers : ∀ j, j ≠ i → holder = some j → s.holder = some j)
    (hfits : progress.fits (jobs i)) : Going jobs (s.proceed i now c holder progress) := by
  refine ⟨hheld, ?_, forall_progress_proceed hfits fun j _ => h.fits j⟩
  exact forall_progress_proceed (p := fun j progress => holder = some j → progress.holds (jobs j))
    hkept fun j hji hj => h.kept j (hothers j hji hj)

/-- Only a call that takes the lock waits for it. -/
theorem fits_ofLook (call : Call α) (outcome : Except Fault (Option β)) (c : Cache α β)
    (now : Instant) : (Progress.ofLook (call.look c now).answer).fits (.compute call outcome) := by
  obtain ⟨form, key, lifetime⟩ := call
  cases form <;> simp only [Call.look, Turn.map] <;> split <;>
    simp [Progress.ofLook, Progress.fits, Form.locks]

theorem Going.step (h : Going jobs s) (hstep : Step jobs s t) : Going jobs t := by
  have hheld := h.held.step hstep
  cases hstep with
  | operate => exact h.proceed hheld nofun nofun trivial
  | closeAgain now hjob hready | startSweeper now hjob hready =>
    refine h.proceed hheld (fun hholder => ?_) (fun _ _ => id) trivial
    simpa [hready, Progress.holds] using h.kept _ hholder
  | mark now hjob hready =>
    refine h.proceed hheld (fun hholder => ?_) (fun _ _ => id) hjob
    simpa [hready, Progress.holds] using h.kept _ hholder
  | clear | release => exact h.proceed hheld nofun nofun trivial
  | @look i call outcome now hjob =>
    refine h.proceed hheld nofun nofun ?_
    rw [hjob]
    exact fits_ofLook call outcome s.cache now
  | @acquire i now hwaiting =>
    have hfits := h.fits i
    rw [hwaiting] at hfits
    exact h.proceed hheld (fun _ => trivial)
      (fun j hj hi => absurd (Option.some.inj hi).symm hj) hfits
  | @check i call outcome now hjob hchecking =>
    have hfits := h.fits i
    rw [hchecking] at hfits
    refine h.proceed hheld (fun _ => ?_) (fun _ _ => id) ?_
    · cases (call.enter s.cache now).answer with
      | finished result => trivial
      | waiting | loading => exact hfits
    · cases (call.enter s.cache now).answer with
      | finished result => trivial
      | waiting | loading => exact ⟨call, outcome, hjob⟩
  | concludeLocked => exact h.proceed hheld (fun _ => trivial) (fun _ _ => id) trivial
  | @concludeUnlocked i call outcome now hjob hlocks hloading =>
    refine h.proceed hheld (fun hholder => ?_) (fun _ _ => id) trivial
    have hholds := h.kept i hholder
    rw [hloading, hjob] at hholds
    obtain ⟨call', outcome', hsame, hlocks'⟩ := hholds
    cases hsame
    rw [hlocks] at hlocks'
    cases hlocks'
  | @sweepBatch i order now hjob =>
    refine h.proceed hheld nofun nofun ?_
    cases (s.cache.sweepBatch order now).answer with
    | none => trivial
    | some taken =>
      simp only [Progress.ofBatch]
      split
      · trivial
      · exact hjob

theorem Going.reaches (h : Going jobs s) (hreaches : Reaches jobs s t) : Going jobs t := by
  induction hreaches with
  | refl => exact h
  | tail _ hstep ih => exact ih.step hstep

/-- As long as somebody is not done, somebody can go on, whatever the clock shows. -/
theorem Going.exists_step (h : Going jobs s) (now : Instant)
    (hi : ∀ result, s.progress i ≠ .finished result) :
    ∃ j c holder progress, Step jobs s (s.proceed j now c holder progress) := by
  cases hholder : s.holder with
  | some j =>
    -- who has the lock waits for nobody
    have hholds := h.kept j hholder
    cases hj : s.progress j with
    | checking =>
      have hfits := h.fits j
      rw [hj] at hfits
      obtain ⟨call, outcome, hjob, -⟩ := hfits
      exact ⟨j, _, _, _, .check now hjob hj⟩
    | loading =>
      rw [hj] at hholds
      obtain ⟨call, outcome, hjob, hlocks⟩ := hholds
      exact ⟨j, _, _, _, .concludeLocked now hjob hlocks hj⟩
    | leaving result => exact ⟨j, _, _, _, .release now hj⟩
    | ready | waiting | closing | sweeping | finished _ =>
      rw [hj] at hholds
      exact hholds.elim
  | none =>
    have hfits := h.fits i
    cases hprogress : s.progress i with
    | ready =>
      cases hjob : jobs i with
      | perform op =>
        by_cases hop : op = .close
        · subst hop
          cases hclosed : s.cache.closed with
          | true => exact ⟨i, _, _, _, .closeAgain now hjob hprogress hclosed⟩
          | false => exact ⟨i, _, _, _, .mark now hjob hprogress hclosed⟩
        · exact ⟨i, _, _, _, .operate now hjob hop hprogress hholder⟩
      | compute call outcome => exact ⟨i, _, _, _, .look now hjob hprogress hholder⟩
      | sweep => exact ⟨i, _, _, _, .sweepBatch .asListed now hjob (.inl hprogress) hholder⟩
      | startSweeper sweeper => exact ⟨i, _, _, _, .startSweeper now hjob hprogress⟩
    | waiting => exact ⟨i, _, _, _, .acquire now hprogress hholder⟩
    | checking =>
      exact absurd (by rw [hprogress]; trivial) (h.held.not_holds_of_free (j := i) hholder)
    | loading =>
      rw [hprogress] at hfits
      obtain ⟨call, outcome, hjob⟩ := hfits
      cases hlocks : call.form.locks with
      | true => exact ⟨i, _, _, _, .concludeLocked now hjob hlocks hprogress⟩
      | false => exact ⟨i, _, _, _, .concludeUnlocked now hjob hlocks hprogress (.inl hholder)⟩
    | leaving result => exact ⟨i, _, _, _, .release now hprogress⟩
    | closing =>
      rw [hprogress] at hfits
      exact ⟨i, _, _, _, .clear now hfits hprogress hholder⟩
    | sweeping =>
      rw [hprogress] at hfits
      exact ⟨i, _, _, _, .sweepBatch .asListed now hfits (.inr hprogress) hholder⟩
    | finished result => exact absurd hprogress (hi result)

/-- Every step of a caller who does not sweep takes it nearer to its end. -/
theorem Step.left_lt (h : Step jobs s t) :
    ∃ i now c holder progress, t = s.proceed i now c holder progress ∧
      (jobs i ≠ .sweep → progress.left < (s.progress i).left) := by
  cases h with
  | look _ _ hbefore =>
    exact ⟨_, _, _, _, _, rfl, fun _ => by
      rw [hbefore]
      exact Progress.left_ofLook_lt _⟩
  | check _ _ hbefore =>
    exact ⟨_, _, _, _, _, rfl, fun _ => by
      rw [hbefore]
      exact Progress.left_ofEnter_lt _⟩
  | sweepBatch _ _ hjob => exact ⟨_, _, _, _, _, rfl, fun hsweep => absurd hjob hsweep⟩
  | operate _ _ _ hbefore | closeAgain _ _ hbefore | mark _ _ hbefore | clear _ _ hbefore
  | acquire _ hbefore | concludeLocked _ _ _ hbefore | concludeUnlocked _ _ _ hbefore
  | release _ hbefore | startSweeper _ _ hbefore =>
    exact ⟨_, _, _, _, _, rfl, fun _ => by simp [hbefore, Progress.left]⟩

/-- Nobody comes back to where it was, nor before that. -/
theorem Reaches.left_le (h : Reaches jobs (start c) s) (hi : jobs i ≠ .sweep) :
    ∀ m ∈ s.log, m.caller = i → (s.progress i).left ≤ m.progress.left := by
  induction h with
  | refl =>
    intro m hm
    cases hm
  | tail _ hstep ih =>
    obtain ⟨j, now, c', holder, progress, rfl, hleft⟩ := hstep.left_lt
    intro m hm hcaller
    rcases List.mem_append.mp hm with hold | hnew
    · by_cases hij : i = j
      · subst hij
        rw [progress_proceed_self]
        exact Nat.le_trans (Nat.le_of_lt (hleft hi)) (ih m hold hcaller)
      · rw [progress_proceed_of_ne hij]
        exact ih m hold hcaller
    · rw [List.mem_singleton] at hnew
      subst hnew
      obtain rfl : j = i := hcaller
      exact Nat.le_of_eq (congrArg Progress.left progress_proceed_self)

theorem Reaches.countP_add_left_le (h : Reaches jobs (start c) s) (hi : jobs i ≠ .sweep) :
    (s.log.countP fun m => decide (m.caller = i)) + (s.progress i).left ≤ 5 := by
  induction h with
  | refl => exact Nat.le_refl 5
  | tail _ hstep ih =>
    obtain ⟨j, now, c', holder, progress, rfl, hleft⟩ := hstep.left_lt
    by_cases hij : i = j
    · subst hij
      have hlt := hleft hi
      rw [progress_proceed_self]
      simp only [Crowd.proceed, List.countP_append, List.countP_singleton, decide_true, if_true]
      omega
    · rw [progress_proceed_of_ne hij]
      simpa [Crowd.proceed, List.countP_append, Ne.symm hij] using ih

end Crowd

end ExpiringCache
