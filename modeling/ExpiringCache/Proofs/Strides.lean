import ExpiringCache.Proofs.Schedule
import ExpiringCache.Proofs.Service

/-!
# Strides of time

Time passes in strides from stop to stop, and at every stop all sweepers look at the clock. Here all
of them are stopped, or all but one, and time stops at each tick of that one.

1. **Prompt hosts** (`Host.Prompt`): what a host has to do for that. Nothing is claimed of sweepers
   on other hosts, except that time passes there as well (`Session.clock_host_advance`).
2. **One sweeper** (`Sweeper.Ready`, `Sweeper.ContinuesAs`): it waits for the first tick to come.
   At the tick it sweeps once, and waits for the next.
3. **When it sweeps** (`SweptAt`): at the multiples of its interval.
4. **Waking** (`Session.Lone`): the sweepers that are stopped do nothing.
5. **Strides** (`Session.SweepsUntil`): what all strides on the way come to.
-/

namespace ExpiringCache

variable {α β : Type} [Ord α] [Std.TransOrd α]

/-! ## Prompt hosts -/

/-- The host keeps this interval as the period of its sweepers, and time stops at each of their
ticks. -/
structure Host.Prompt (host : Host) (interval : Nat) : Prop where
  le_longest : interval ≤ host.pacing.longest
  isLeast_stop : ∀ origin clock, origin ≤ clock →
    IsLeast {tick | clock < tick ∧ ∃ k, tick = origin + k * interval}
      (host.stop origin interval clock)

/-- The first multiple is the least of those to come. -/
theorem isLeast_nextMultiple {step base moment : Nat} (hpos : 0 < step) (hle : base ≤ moment) :
    IsLeast {next | moment < next ∧ ∃ k, next = base + k * step} (nextMultiple step base moment) :=
  Timetable.isLeast_tick (t := ⟨step, base, fun _ => 0, hpos⟩) hle

theorem Host.prompt_usual {interval : Nat} (hpos : 0 < interval)
    (hle : interval ≤ Pacing.usual.longest) : Host.usual.Prompt interval where
  le_longest := hle
  isLeast_stop _ _ horigin := isLeast_nextMultiple hpos horigin

/-! ## One sweeper -/

namespace Sweeper

variable {u v w : Sweeper} {host : Host} {earlier clock m n : Nat}

/-- The same sweeper, with so many more sweeps begun. -/
structure ContinuesAs (w u : Sweeper) (sweeps : Nat) : Prop where
  origin_eq : u.origin = w.origin
  interval_eq : u.interval = w.interval
  begun_eq : u.begun = w.begun + sweeps

theorem ContinuesAs.refl (w : Sweeper) : w.ContinuesAs w 0 := ⟨rfl, rfl, rfl⟩

theorem ContinuesAs.trans (h : w.ContinuesAs v m) (h' : v.ContinuesAs u n) :
    w.ContinuesAs u (m + n) where
  origin_eq := h'.origin_eq.trans h.origin_eq
  interval_eq := h'.interval_eq.trans h.interval_eq
  begun_eq := by rw [h'.begun_eq, h.begun_eq, Nat.add_assoc]

/-- It runs on a host that is prompt for it, and waits for the first of its ticks that is still to
come. -/
structure Ready (w : Sweeper) (host : Host) (clock : Nat) : Prop where
  pacing_eq : w.pacing = host.pacing
  prompt : host.Prompt w.interval
  origin_le : w.origin ≤ clock
  waiting : ∃ since ≤ clock, w.activity = .waiting since
  isLeast_due : IsLeast {tick | clock < tick ∧ ∃ k, tick = w.origin + k * w.interval} w.due

theorem ready_start {interval : Nat} (hprompt : host.Prompt interval) (now : Nat)
    (pos : 0 < interval) : (start host.pacing interval now pos).Ready host now := by
  have hperiod : host.pacing.period interval = interval := Nat.min_eq_left hprompt.le_longest
  have hnext := isLeast_nextMultiple pos (Nat.le_refl now)
  have hdue : (start host.pacing interval now pos).due = nextMultiple interval now now := by
    simp [start, nextMultiple, hperiod]
  refine ⟨rfl, hprompt, Nat.le_refl now, ⟨now, Nat.le_refl now, rfl⟩, ?_⟩
  rw [hdue]
  exact hnext

theorem Ready.not_aborted (h : w.Ready host clock) : w.activity ≠ .aborted := by
  obtain ⟨since, -, hwaiting⟩ := h.waiting
  simp [hwaiting]

theorem Ready.period_eq (h : w.Ready host clock) : w.period = w.interval := by
  rw [period, Pacing.period, h.pacing_eq]
  exact Nat.min_eq_left h.prompt.le_longest

/-- The tick after one that is taken in time. -/
theorem Ready.isLeast_following (h : w.Ready host earlier) :
    IsLeast {tick | w.due < tick ∧ ∃ k, tick = w.origin + k * w.interval} (w.following w.due) := by
  let t : Timetable := ⟨w.interval, w.origin, fun _ => 0, w.interval_pos⟩
  obtain ⟨⟨hlt, k, hk⟩, -⟩ := h.isLeast_due
  have hpassed : t.passed w.due = k := by
    rw [hk]
    exact t.passed_tick k
  have hfollowing : w.following w.due = t.tick (t.passed w.due + 1) := by
    rw [hpassed, Timetable.tick_add_one, following, if_pos (Nat.le_add_right _ _), h.period_eq, hk]
    rfl
  have horigin : t.origin ≤ w.due := Nat.le_trans h.origin_le (Nat.le_of_lt hlt)
  rw [hfollowing]
  exact Timetable.isLeast_tick horigin

/-- The sweeper looks at the clock and goes on waiting. -/
def waitFrom (w : Sweeper) (clock : Nat) : Sweeper := { w with activity := .waiting clock }

theorem Ready.sleepUntil_eq (h : w.Ready host earlier) (hle : earlier ≤ clock) :
    w.sleepUntil clock = w.waitFrom clock := by
  obtain ⟨since, hsince, hwaiting⟩ := h.waiting
  have hmax : max since clock = clock := by omega
  simp only [sleepUntil, hwaiting, hmax, waitFrom]

/-- A sweeper that looks at the clock before its tick does nothing. -/
theorem Ready.runUntil_of_lt (h : w.Ready host earlier) (hle : earlier ≤ clock)
    (hlt : clock < w.due) :
    ∃ u : Sweeper, u.Ready host clock ∧ w.ContinuesAs u 0 ∧
      (w.sleepUntil clock).runUntil true (fun _ => 0) clock = (u, []) := by
  have hnext : (w.waitFrom clock).next? = some (max w.due clock) := rfl
  have hready : (w.waitFrom clock).Ready host clock := by
    refine ⟨h.pacing_eq, h.prompt, Nat.le_trans h.origin_le hle, ⟨clock, Nat.le_refl _, rfl⟩, ?_⟩
    obtain ⟨⟨-, hdue⟩, hleast⟩ := h.isLeast_due
    exact ⟨⟨hlt, hdue⟩, fun tick htick => hleast ⟨by have := htick.1; omega, htick.2⟩⟩
  refine ⟨w.waitFrom clock, hready, ⟨rfl, rfl, rfl⟩, ?_⟩
  rw [h.sleepUntil_eq hle]
  exact runFor_of_lt hnext (by omega) _

/-- A sweeper that looks at the clock at its tick sweeps once. -/
theorem Ready.runUntil_due (h : w.Ready host earlier) :
    ∃ u : Sweeper, u.Ready host w.due ∧ w.ContinuesAs u 1 ∧
      (w.sleepUntil w.due).runUntil true (fun _ => 0) w.due =
        (u, [.began w.due, .ended w.due]) := by
  have hlt : earlier < w.due := h.isLeast_due.1.1
  let began : Sweeper :=
    { w with due := w.following w.due, begun := w.begun + 1, activity := .sweeping w.due }
  let u := began.waitFrom w.due
  have hready : u.Ready host w.due :=
    ⟨h.pacing_eq, h.prompt, Nat.le_trans h.origin_le (Nat.le_of_lt hlt),
      ⟨w.due, Nat.le_refl _, rfl⟩, h.isLeast_following⟩
  refine ⟨u, hready, ⟨rfl, rfl, rfl⟩, ?_⟩
  have hbegan : (w.waitFrom w.due).step true 0 = (began, some (.began w.due)) := by
    simp only [step, waitFrom, Nat.max_self, following, if_true]
    rfl
  have hended : began.step true 0 = (u, some (.ended w.due)) := rfl
  have hnext : (w.waitFrom w.due).next? = some w.due := congrArg some (Nat.max_self _)
  have hends : began.next? = some w.due := rfl
  have hlater : u.next? = some (max u.due w.due) := rfl
  have hlate : w.due < max u.due w.due := by
    have := hready.isLeast_due.1.1
    omega
  rw [h.sleepUntil_eq (Nat.le_of_lt hlt), runUntil,
    show 2 * (w.due + 2) = 2 * w.due + 2 + 1 + 1 by omega,
    runFor_of_le hnext (Nat.le_refl _) hbegan, runFor_of_le hends (Nat.le_refl _) hended,
    runFor_of_lt hlater hlate]

end Sweeper

/-! ## When it sweeps -/

/-- On the way from `clock` to `limit` there is a sweep at `moment`: a multiple of the interval,
counted from the origin, has come. -/
def SweptAt (origin interval clock limit moment : Nat) : Prop :=
  clock < moment ∧ moment ≤ limit ∧ ∃ k, 0 < k ∧ moment = origin + k * interval

section Ticks

variable {origin interval clock limit moment due : Nat}

/-- There is no sweep before the tick that comes next. -/
theorem not_sweptAt_of_lt_due
    (hdue : IsLeast {tick | clock < tick ∧ ∃ k, tick = origin + k * interval} due)
    (hlt : limit < due) : ¬ SweptAt origin interval clock limit moment := by
  rintro ⟨hclock, hlimit, k, -, hmoment⟩
  have hle : due ≤ moment := hdue.2 ⟨hclock, k, hmoment⟩
  omega

/-- The sweeps of some time are the one at the tick that comes next, and those of the time from
there on. -/
theorem sweptAt_iff_of_due_le (horigin : origin ≤ clock)
    (hdue : IsLeast {tick | clock < tick ∧ ∃ k, tick = origin + k * interval} due)
    (hle : due ≤ limit) :
    SweptAt origin interval clock limit moment ↔
      moment = due ∨ SweptAt origin interval due limit moment := by
  obtain ⟨⟨hclock, n, hn⟩, hleast⟩ := hdue
  constructor
  · rintro ⟨hlt, hlimit, k, hk⟩
    rcases Nat.eq_or_lt_of_le (hleast ⟨hlt, k, hk.2⟩) with heq | hlater
    · exact .inl heq.symm
    · exact .inr ⟨hlater, hlimit, k, hk⟩
  · rintro (rfl | ⟨hlt, hlimit, hmultiple⟩)
    · refine ⟨hclock, hle, n, Nat.pos_of_ne_zero ?_, hn⟩
      rintro rfl
      omega
    · exact ⟨Nat.lt_trans hclock hlt, hlimit, hmultiple⟩

end Ticks

namespace Session

variable {s t : Session α β} {id clock limit : Nat} {u w : Sweeper}

/-! ## Time -/

/-- The clocks go on to a moment, and there is a sweep. -/
def sweepAt (s : Session α β) (moment : Nat) : Session α β := (s.moveTo moment).sweep

/-- The session with other sweepers. -/
def staff (s : Session α β) (sweepers : Array Sweeper) : Session α β := { s with sweepers }

theorem sweep_eq (s : Session α β) :
    s.sweep = { s with
      cache := (s.cache.sweep (fun _ => .asListed) s.wall).cache
      journal := (s.cache.sweep (fun _ => .asListed) s.wall).events.reverse ++ s.journal } := by
  have hservice : (s.cache.sweep (fun _ => .asListed) s.wall).cache.service = s.cache.service :=
    Cache.service_sweepRounds _ _ _ _ _
  have hsweeper : (s.cache.sweep (fun _ => .asListed) s.wall).cache.sweeper = s.cache.sweeper :=
    congrArg Prod.snd hservice
  simp only [sweep, commit, record, hsweeper]
  split
  · rfl
  · rename_i id hid
    rw [if_pos hid]

theorem sweep_staff (s : Session α β) (sweepers : Array Sweeper) :
    (s.staff sweepers).sweep = s.sweep.staff sweepers := by
  rw [sweep_eq, sweep_eq]
  rfl

theorem foldl_sweepAt_staff (s : Session α β) (sweepers : Array Sweeper) (moments : List Nat) :
    moments.foldl sweepAt (s.staff sweepers) = (moments.foldl sweepAt s).staff sweepers := by
  induction moments generalizing s with
  | nil => rfl
  | cons moment moments ih =>
    have hsweep : (s.staff sweepers).sweepAt moment = (s.sweepAt moment).staff sweepers :=
      sweep_staff (s.moveTo moment) sweepers
    rw [List.foldl_cons, List.foldl_cons, hsweep, ih]

theorem service_sweepAt (s : Session α β) (moment : Nat) :
    (s.sweepAt moment).cache.service = s.cache.service :=
  Cache.service_sweepRounds _ _ _ _ _

omit [Std.TransOrd α] in
theorem moveTo_self (s : Session α β) : s.moveTo s.clock = s := by
  have hwall : s.wall.shift ((s.clock - s.clock : Nat) : Int) = s.wall := by
    have hlower := s.wall.lower
    have hupper := s.wall.upper
    ext
    simp only [Instant.shift, Instant.clamp_ms, Nat.sub_self]
    omega
  simp only [moveTo, shiftWall, hwall]

/-! ## Waking -/

theorem modify_eq_self {γ : Type} {xs : Array γ} {x : γ} {n : Nat} (h : xs[n]? = some x) :
    xs.modify n (fun _ => x) = xs := by
  apply Array.ext_getElem?
  intro m
  rw [Array.getElem?_modify]
  split
  · rename_i heq
    rw [← heq, h, Option.map_some]
  · rfl

theorem modify_modify_const {γ : Type} (xs : Array γ) (n : Nat) (x y : γ) :
    (xs.modify n fun _ => x).modify n (fun _ => y) = xs.modify n fun _ => y := by
  apply Array.ext_getElem?
  intro m
  simp only [Array.getElem?_modify]
  split
  · rw [Option.map_map]
    rfl
  · rfl

theorem wake_of_aborted (hw : s.sweepers[id]? = some w) (haborted : w.activity = .aborted) :
    s.wake id = s := by
  have hsleep : w.sleepUntil s.clock = w := by simp only [Sweeper.sleepUntil, haborted]
  have hover : w.next? = none := by simp only [Sweeper.next?, haborted]
  simp only [wake, hw, hsleep, Sweeper.runUntil, Sweeper.runFor_of_over hover, modify_eq_self hw]
  rfl

/-- A sweeper that looks at the clock before its tick goes on waiting. -/
theorem exists_wake_of_lt {earlier : Nat} (hw : s.sweepers[id]? = some w)
    (h : w.Ready s.host earlier) (hle : earlier ≤ s.clock) (hlt : s.clock < w.due) :
    ∃ u : Sweeper, u.Ready s.host s.clock ∧ w.ContinuesAs u 0 ∧
      s.wake id = s.staff (s.sweepers.modify id fun _ => u) := by
  obtain ⟨u, hready, hsame, hrun⟩ := h.runUntil_of_lt hle hlt
  refine ⟨u, hready, hsame, ?_⟩
  simp only [wake, hw, hrun, List.foldl_nil]
  rfl

/-- A sweeper that looks at the clock at its tick sweeps once. -/
theorem exists_wake_due {earlier : Nat} (hw : s.sweepers[id]? = some w)
    (h : w.Ready s.host earlier) (hdue : s.clock = w.due) :
    ∃ u : Sweeper, u.Ready s.host w.due ∧ w.ContinuesAs u 1 ∧
      s.wake id = s.sweep.staff (s.sweepers.modify id fun _ => u) := by
  obtain ⟨u, hready, hsame, hrun⟩ := h.runUntil_due
  refine ⟨u, hready, hsame, ?_⟩
  rw [← hdue] at hrun
  simp only [wake, hw, hrun, List.foldl_cons, List.foldl_nil]
  exact sweep_staff s _

theorem foldl_wake_eq_self {ids : List Nat} (h : ∀ id ∈ ids, s.wake id = s) :
    ids.foldl wake s = s := by
  induction ids with
  | nil => rfl
  | cons id ids ih =>
    rw [List.foldl_cons, h id List.mem_cons_self]
    exact ih fun other hother => h other (List.mem_cons_of_mem id hother)

/-- All sweepers but one are stopped. -/
def Lone (s : Session α β) (only : Option Nat) : Prop :=
  ∀ id w, s.sweepers[id]? = some w → only ≠ some id → w.activity = .aborted

omit [Std.TransOrd α] in
theorem Lone.staff_modify (h : s.Lone (some id)) (t : Session α β) (u : Sweeper) :
    (t.staff (s.sweepers.modify id fun _ => u)).Lone (some id) := by
  intro n w hw hne
  have hne' : id ≠ n := by simpa using hne
  have hw' : (s.sweepers.modify id fun _ => u)[n]? = some w := hw
  rw [Array.getElem?_modify, if_neg hne'] at hw'
  exact h n w hw' hne

theorem Lone.wake_of_ne {only : Option Nat} (h : s.Lone only) (hne : only ≠ some id) :
    s.wake id = s := by
  cases hw : s.sweepers[id]? with
  | none => simp only [wake, hw]
  | some w => exact wake_of_aborted hw (h id w hw hne)

theorem range_eq_append_cons {m n : Nat} (h : m < n) :
    List.range n = List.range m ++ m :: List.range' (m + 1) (n - (m + 1)) := by
  have happend := @List.range'_append_1 0 m (n - (m + 1) + 1)
  rw [Nat.zero_add, show m + (n - (m + 1) + 1) = n by omega] at happend
  rw [List.range_eq_range', List.range_eq_range', ← List.range'_succ, happend]

/-- Only one sweeper has anything to do. -/
theorem Lone.foldl_wake (h : s.Lone (some id)) (hid : id < s.sweepers.size)
    (hwake : s.wake id = t.staff (s.sweepers.modify id fun _ => u)) :
    (List.range s.sweepers.size).foldl wake s = t.staff (s.sweepers.modify id fun _ => u) := by
  have hafter : (t.staff (s.sweepers.modify id fun _ => u)).Lone (some id) := h.staff_modify t u
  have hbefore : (List.range id).foldl wake s = s := by
    refine foldl_wake_eq_self fun other hother => h.wake_of_ne ?_
    have := List.mem_range.mp hother
    simp only [ne_eq, Option.some.injEq]
    omega
  rw [range_eq_append_cons hid, List.foldl_append, hbefore, List.foldl_cons, hwake]
  refine foldl_wake_eq_self fun other hother => hafter.wake_of_ne ?_
  have := (List.mem_range'_1.mp hother).1
  simp only [ne_eq, Option.some.injEq]
  omega

theorem foldl_min_eq {l : List Nat} {n m : Nat} (hmem : m ∈ l) (h : ∀ x ∈ l, x = m) :
    l.foldl min n = min n m := by
  induction l generalizing n with
  | nil => cases hmem
  | cons x l ih =>
    obtain rfl := h x List.mem_cons_self
    have hrest : ∀ y ∈ l, y = x := fun y hy => h y (List.mem_cons_of_mem x hy)
    rw [List.foldl_cons]
    cases l with
    | nil => rfl
    | cons y l =>
      obtain rfl := hrest y List.mem_cons_self
      rw [ih List.mem_cons_self hrest, Nat.min_assoc, Nat.min_self]

omit [Std.TransOrd α] in
theorem stop?_of_aborted (host : Host) (haborted : w.activity = .aborted) :
    host.stop? w clock = none := by
  simp [Host.stop?, Sweeper.isOver, haborted]

omit [Std.TransOrd α] in
theorem Lone.nextStop_of_none (h : s.Lone none) (limit : Nat) : s.nextStop limit = limit := by
  have hnone : s.sweepers.toList.filterMap (s.host.stop? · s.clock) = [] := by
    rw [List.filterMap_eq_nil_iff]
    intro w hw
    obtain ⟨id, hid⟩ := List.mem_iff_getElem?.mp hw
    rw [Array.getElem?_toList] at hid
    exact stop?_of_aborted s.host (h id w hid nofun)
  rw [nextStop, hnone, List.foldl_nil]

omit [Std.TransOrd α] in
/-- On a prompt host time stops at the tick. -/
theorem Lone.nextStop_of_some (h : s.Lone (some id)) (hw : s.sweepers[id]? = some w)
    (hready : w.Ready s.host s.clock) (limit : Nat) : s.nextStop limit = min limit w.due := by
  have hstop : s.host.stop? w s.clock = some w.due := by
    have hleast := hready.prompt.isLeast_stop w.origin s.clock hready.origin_le
    obtain ⟨since, -, hwaiting⟩ := hready.waiting
    simp [Host.stop?, Sweeper.isOver, hwaiting, hleast.unique hready.isLeast_due]
  have hmem : w ∈ s.sweepers.toList := by
    rw [← Array.getElem?_toList] at hw
    exact List.mem_of_getElem? hw
  refine foldl_min_eq (List.mem_filterMap.mpr ⟨w, hmem, hstop⟩) fun stop hother => ?_
  obtain ⟨v, hv, hother⟩ := List.mem_filterMap.mp hother
  obtain ⟨n, hn⟩ := List.mem_iff_getElem?.mp hv
  rw [Array.getElem?_toList] at hn
  by_cases heq : id = n
  · subst heq
    obtain rfl := Option.some.inj (hw.symm.trans hn)
    exact Option.some.inj (hother.symm.trans hstop)
  · rw [stop?_of_aborted s.host (h n v hn (by simpa using heq))] at hother
    cases hother

/-! ## Strides -/

/-- What the strides up to `limit` come to: a sweep at each moment at which the sweeper sweeps, and
then the sweeper waits for its next tick. -/
def SweepsUntil (s t : Session α β) (id : Nat) (w : Sweeper) (limit : Nat) : Prop :=
  ∃ (moments : List Nat) (u : Sweeper), moments.Pairwise (· < ·) ∧
    (∀ m, m ∈ moments ↔ SweptAt w.origin w.interval s.clock limit m) ∧
    u.Ready s.host limit ∧ w.ContinuesAs u moments.length ∧
    t = ((moments.foldl sweepAt s).moveTo limit).staff (s.sweepers.modify id fun _ => u)

/-- Before the tick, time passes and nothing else. -/
theorem sweepsUntil_of_lt (hready : w.Ready s.host s.clock) (hlt : limit < w.due)
    (hu : u.Ready s.host limit) (hsame : w.ContinuesAs u 0) :
    SweepsUntil s ((s.moveTo limit).staff (s.sweepers.modify id fun _ => u)) id w limit := by
  refine ⟨[], u, .nil, fun m => ?_, hu, hsame, rfl⟩
  exact iff_of_false List.not_mem_nil (not_sweptAt_of_lt_due hready.isLeast_due hlt)

theorem sweepsUntil_self (hw : s.sweepers[id]? = some w) (hready : w.Ready s.host s.clock) :
    SweepsUntil s s id w s.clock := by
  have hstay : (s.moveTo s.clock).staff (s.sweepers.modify id fun _ => w) = s := by
    rw [moveTo_self, modify_eq_self hw]
    rfl
  have hsweeps :
      SweepsUntil s ((s.moveTo s.clock).staff (s.sweepers.modify id fun _ => w)) id w s.clock :=
    sweepsUntil_of_lt hready hready.isLeast_due.1.1 hready (.refl w)
  rwa [hstay] at hsweeps

/-- The sweep at the tick, and those of the time from there on. -/
theorem SweepsUntil.cons {v : Sweeper} (hready : w.Ready s.host s.clock) (hle : w.due ≤ limit)
    (hsame : w.ContinuesAs v 1)
    (h : SweepsUntil ((s.sweepAt w.due).staff (s.sweepers.modify id fun _ => v)) t id v limit) :
    SweepsUntil s t id w limit := by
  obtain ⟨moments, u, hsorted, hmem, hu, hrest, rfl⟩ := h
  have hlater : ∀ m, m ∈ moments ↔ SweptAt w.origin w.interval w.due limit m := by
    rw [← hsame.origin_eq, ← hsame.interval_eq]
    exact hmem
  refine ⟨w.due :: moments, u, ?_, fun m => ?_, hu, ?_, ?_⟩
  · exact List.pairwise_cons.mpr ⟨fun m hm => ((hlater m).mp hm).1, hsorted⟩
  · rw [List.mem_cons, hlater, sweptAt_iff_of_due_le hready.origin_le hready.isLeast_due hle]
  · rw [List.length_cons, Nat.add_comm]
    exact hsame.trans hrest
  · rw [foldl_sweepAt_staff, List.foldl_cons, ← modify_modify_const s.sweepers id v u]
    rfl

theorem stride_of_le (hle : limit ≤ s.clock) (fuel : Nat) : stride limit fuel s = s := by
  cases fuel with
  | zero => rfl
  | succ fuel => rw [stride, if_neg (Nat.not_lt.mpr hle)]

/-- Strides up to `limit` sweep at the moments at which the sweeper does. -/
theorem sweepsUntil_stride (hw : s.sweepers[id]? = some w) (h : s.Lone (some id))
    (hready : w.Ready s.host s.clock) (hle : s.clock ≤ limit) {fuel : Nat}
    (hfuel : limit ≤ s.clock + fuel) : SweepsUntil s (stride limit fuel s) id w limit := by
  induction fuel generalizing s w with
  | zero =>
    obtain rfl : limit = s.clock := by omega
    exact sweepsUntil_self hw hready
  | succ fuel ih =>
    rcases Nat.eq_or_lt_of_le hle with rfl | hlt
    · rw [stride_of_le (Nat.le_refl _)]
      exact sweepsUntil_self hw hready
    have hsize : id < s.sweepers.size := (Array.getElem?_eq_some_iff.mp hw).1
    have hmoved : ∀ stop, (s.moveTo stop).Lone (some id) := fun _ => h
    rw [stride, if_pos hlt, h.nextStop_of_some hw hready]
    rcases Nat.lt_or_ge limit w.due with hbefore | hdue
    · -- the strides end before the tick
      obtain ⟨u, hu, hsame, hwake⟩ :=
        exists_wake_of_lt (s := s.moveTo limit) hw hready hle hbefore
      rw [Nat.min_eq_left (Nat.le_of_lt hbefore)]
      dsimp only
      rw [(hmoved limit).foldl_wake hsize hwake,
        stride_of_le (s := (s.moveTo limit).staff _) (Nat.le_refl limit)]
      exact sweepsUntil_of_lt hready hbefore hu hsame
    · -- they go on from the tick
      obtain ⟨v, hv, hsame, hwake⟩ :=
        exists_wake_due (s := s.moveTo w.due) hw hready rfl
      rw [Nat.min_eq_right hdue]
      dsimp only
      rw [(hmoved w.due).foldl_wake hsize hwake]
      have hlate : s.clock < w.due := hready.isLeast_due.1.1
      have hnext : (s.sweepers.modify id fun _ => v)[id]? = some v := by
        rw [Array.getElem?_modify, if_pos rfl, hw, Option.map_some]
      have hlone := h.staff_modify (s.sweepAt w.due) v
      have hrest : limit ≤ w.due + fuel := by omega
      exact .cons hready hdue hsame (ih hnext hlone hv hdue hrest)

/-- Where no sweeper waits, time passes and nothing else. -/
theorem stride_of_none (h : s.Lone none) (hle : s.clock ≤ limit) {fuel : Nat}
    (hfuel : limit ≤ s.clock + fuel) : stride limit fuel s = s.moveTo limit := by
  rcases Nat.eq_or_lt_of_le hle with rfl | hlt
  · rw [stride_of_le (Nat.le_refl _), moveTo_self]
  · obtain ⟨fuel, rfl⟩ := Nat.exists_eq_succ_of_ne_zero (show fuel ≠ 0 by omega)
    have hmoved : (s.moveTo limit).Lone none := h
    have hwakes : (List.range (s.moveTo limit).sweepers.size).foldl wake (s.moveTo limit) =
        s.moveTo limit := foldl_wake_eq_self fun id _ => hmoved.wake_of_ne nofun
    simp only [stride, hlt, if_true, h.nextStop_of_none, hwakes]
    exact stride_of_le (Nat.le_refl limit) fuel

/-! ### Any host -/

theorem clock_host_foldl_wake (s : Session α β) (ids : List Nat) :
    (ids.foldl wake s).clock = s.clock ∧ (ids.foldl wake s).host = s.host := by
  induction ids generalizing s with
  | nil => exact ⟨rfl, rfl⟩
  | cons id ids ih =>
    have hwake : (s.wake id).clock = s.clock ∧ (s.wake id).host = s.host := by
      unfold wake
      split
      · exact ⟨rfl, rfl⟩
      · refine List.foldlRecOn
          (motive := fun t : Session α β => t.clock = s.clock ∧ t.host = s.host) _ _ ⟨rfl, rfl⟩
          fun t ht happening _ => ?_
        split <;> exact ht
    rw [List.foldl_cons, (ih _).1, (ih _).2]
    exact hwake

omit [Std.TransOrd α] in
theorem lt_nextStop (hlt : s.clock < limit) :
    s.clock < s.nextStop limit ∧ s.nextStop limit ≤ limit := by
  refine List.foldlRecOn (motive := fun stop => s.clock < stop ∧ stop ≤ limit) _ _
    ⟨hlt, Nat.le_refl _⟩ fun stop hstop other hother => ?_
  obtain ⟨w, -, hw⟩ := List.mem_filterMap.mp hother
  have hlater : s.clock < other := by
    unfold Host.stop? at hw
    split at hw
    · cases hw
    · obtain rfl := Option.some.inj hw
      exact s.host.lt_stop w.interval_pos _ _
  exact ⟨Nat.lt_min.2 ⟨hstop.1, hlater⟩, Nat.le_trans (Nat.min_le_left _ _) hstop.2⟩

theorem clock_host_stride (hle : s.clock ≤ limit) {fuel : Nat} (hfuel : limit ≤ s.clock + fuel) :
    (stride limit fuel s).clock = limit ∧ (stride limit fuel s).host = s.host := by
  induction fuel generalizing s with
  | zero =>
    obtain rfl : limit = s.clock := by omega
    exact ⟨rfl, rfl⟩
  | succ fuel ih =>
    rcases Nat.eq_or_lt_of_le hle with rfl | hlt
    · rw [stride_of_le (Nat.le_refl _)]
      exact ⟨rfl, rfl⟩
    · obtain ⟨hstop, hlimit⟩ := lt_nextStop hlt
      rw [stride, if_pos hlt]
      generalize hnext : s.nextStop limit = stop at hstop hlimit
      dsimp only
      generalize List.range (s.moveTo stop).sweepers.size = ids
      obtain ⟨hclock, hhost⟩ := (s.moveTo stop).clock_host_foldl_wake ids
      generalize ids.foldl wake (s.moveTo stop) = next at hclock hhost
      have hnow : next.clock = stop := hclock
      obtain ⟨hend, hsame⟩ := ih (s := next) (by omega) (by omega)
      exact ⟨hend, hsame.trans hhost⟩

/-- Time passes in full on every host, prompt or not, and the session keeps its host. -/
theorem clock_host_advance (s : Session α β) (ms : Nat) :
    (s.advance ms).clock = s.clock + ms ∧ (s.advance ms).host = s.host :=
  clock_host_stride (Nat.le_add_right _ _) (Nat.le_refl _)

end Session

end ExpiringCache
