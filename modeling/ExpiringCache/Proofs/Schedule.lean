import Mathlib
import ExpiringCache.Sweeper

/-!
# The schedule of a sweeper

A sweeper whose leeway is shorter than its interval passes over every tick that falls into a running
sweep. When its sweeps begin is then given by their durations alone.

1. **Timetables** (`Timetable`): the first sweep begins at the first tick, and every other one as
   soon as the one before it has ended, but not before the first tick after that one began.
2. **Regularity** (`Timetable.Regular`): sweeps do not overlap, no two of them begin between the
   same two ticks, a tick at which nothing runs is not passed over, and short sweeps begin at all
   ticks.
3. **One happening** (`step_sweeper`): the state that the timetable gives for so many happenings is
   led to the next one.
4. **Runs** (`Sweeper.Keeps`): what a sweeper does for as long as its target is there, after the
   target has gone, and after it was stopped.
-/

namespace ExpiringCache

/-- When it happens. -/
def Happening.moment : Happening → Nat
  | began moment | ended moment | stopped moment => moment

/-- The ticks of a sweeper, and how long its sweeps take. -/
structure Timetable where
  interval : Nat
  origin : Nat
  /-- What sweep number `n` takes. -/
  pause : Nat → Nat
  interval_pos : 0 < interval

namespace Timetable

/-- Tick number `j`; number zero is the one at the start. -/
def tick (t : Timetable) (j : Nat) : Nat := t.origin + j * t.interval

/-- The number of the last tick up to `moment`. -/
def passed (t : Timetable) (moment : Nat) : Nat := (moment - t.origin) / t.interval

/-- When sweep number `n` begins. -/
def begins (t : Timetable) : Nat → Nat
  | 0 => t.tick 1
  | n + 1 => max (t.begins n + t.pause n) (t.tick (t.passed (t.begins n) + 1))

/-- When sweep number `n` ends. -/
def ends (t : Timetable) (n : Nat) : Nat := t.begins n + t.pause n

/-- What happens as number `i`, counted from zero: sweeps begin and end in turn. -/
def happening (t : Timetable) (i : Nat) : Happening :=
  if i % 2 = 0 then .began (t.begins (i / 2)) else .ended (t.ends (i / 2))

/-- The sweeps of a timetable do not gather, nor do they fall behind. -/
structure Regular (t : Timetable) : Prop where
  begins_zero : t.begins 0 = t.origin + t.interval
  /-- A sweep begins when the one before it has ended, but not before the first tick after that one
  began. -/
  begins_succ : ∀ n, ∃ next,
    IsLeast {moment | t.begins n < moment ∧ ∃ j, moment = t.origin + j * t.interval} next ∧
      t.begins (n + 1) = max (t.begins n + t.pause n) next
  /-- Sweeps never overlap. -/
  ends_le : ∀ m n, m < n → t.begins m + t.pause m ≤ t.begins n
  /-- No two sweeps begin between the same two ticks. -/
  eq_of_window : ∀ j m n,
    (t.origin + j * t.interval ≤ t.begins m ∧ t.begins m < t.origin + (j + 1) * t.interval) →
    (t.origin + j * t.interval ≤ t.begins n ∧ t.begins n < t.origin + (j + 1) * t.interval) →
      m = n
  /-- A sweep begins at every tick at which none is still running. -/
  exists_begins : ∀ j, 0 < j →
    (∀ n, ¬ (t.begins n < t.origin + j * t.interval ∧
      t.origin + j * t.interval < t.begins n + t.pause n)) →
      ∃ n, t.begins n = t.origin + j * t.interval
  /-- Sweeps that are no longer than the interval begin at every tick. -/
  begins_eq : (∀ n, t.pause n ≤ t.interval) → ∀ n, t.begins n = t.origin + (n + 1) * t.interval

variable {t : Timetable} {i j m n moment : Nat}

/-! ## Ticks -/

theorem tick_le_tick (h : i ≤ j) : t.tick i ≤ t.tick j :=
  Nat.add_le_add_left (Nat.mul_le_mul_right _ h) _

theorem tick_add_one (t : Timetable) (j : Nat) : t.tick (j + 1) = t.tick j + t.interval := by
  rw [tick, tick, Nat.add_mul, Nat.one_mul, Nat.add_assoc]

/-- A moment lies before those ticks whose numbers have not been passed. -/
theorem lt_tick_iff (h : t.origin ≤ moment) : moment < t.tick j ↔ t.passed moment < j := by
  rw [passed, Nat.div_lt_iff_lt_mul t.interval_pos, tick]
  omega

theorem tick_le_iff (h : t.origin ≤ moment) : t.tick j ≤ moment ↔ j ≤ t.passed moment := by
  have := lt_tick_iff (j := j) h
  omega

theorem lt_tick_passed (h : t.origin ≤ moment) : moment < t.tick (t.passed moment + 1) :=
  (lt_tick_iff h).mpr (Nat.lt_succ_self _)

theorem passed_tick (t : Timetable) (j : Nat) : t.passed (t.tick j) = j := by
  rw [passed, tick, Nat.add_sub_cancel_left, Nat.mul_div_cancel _ t.interval_pos]

/-- The tick after the last one passed is the first one to come. -/
theorem isLeast_tick (h : t.origin ≤ moment) :
    IsLeast {next | moment < next ∧ ∃ j, next = t.origin + j * t.interval}
      (t.tick (t.passed moment + 1)) := by
  refine ⟨⟨lt_tick_passed h, _, rfl⟩, ?_⟩
  rintro next ⟨hlt, j, rfl⟩
  have hj : t.passed moment < j := (lt_tick_iff h).mp hlt
  exact tick_le_tick hj

/-! ## Sweeps -/

theorem origin_le_begins (t : Timetable) (n : Nat) : t.origin ≤ t.begins n := by
  have htick : ∀ j, t.origin ≤ t.tick j := fun j => Nat.le_add_right _ _
  cases n with
  | zero => exact htick 1
  | succ n => exact Nat.le_trans (htick _) (Nat.le_max_right _ _)

theorem ends_le_begins_succ (t : Timetable) (n : Nat) : t.ends n ≤ t.begins (n + 1) :=
  Nat.le_max_left _ _

theorem tick_le_begins_succ (t : Timetable) (n : Nat) :
    t.tick (t.passed (t.begins n) + 1) ≤ t.begins (n + 1) :=
  Nat.le_max_right _ _

/-- From one sweep to the next a tick is passed. -/
theorem passed_begins_lt (t : Timetable) (n : Nat) :
    t.passed (t.begins n) < t.passed (t.begins (n + 1)) :=
  (tick_le_iff (t.origin_le_begins (n + 1))).mp (t.tick_le_begins_succ n)

theorem passed_begins_strictMono (t : Timetable) : StrictMono fun n => t.passed (t.begins n) :=
  strictMono_nat_of_lt_succ t.passed_begins_lt

theorem lt_passed_begins (t : Timetable) (n : Nat) : n < t.passed (t.begins n) := by
  induction n with
  | zero =>
    show 0 < t.passed (t.tick 1)
    rw [passed_tick]
    exact Nat.one_pos
  | succ n ih =>
    have := t.passed_begins_lt n
    omega

/-- Sweep number `n` begins after as many moments at least. -/
theorem lt_begins (t : Timetable) (n : Nat) : n < t.begins n := by
  have hpassed : t.passed (t.begins n) ≤ t.begins n :=
    Nat.le_trans (Nat.div_le_self _ _) (Nat.sub_le _ _)
  exact Nat.lt_of_lt_of_le (t.lt_passed_begins n) hpassed

theorem begins_mono (t : Timetable) : Monotone t.begins :=
  monotone_nat_of_le_succ fun n => Nat.le_trans (Nat.le_add_right _ _) (t.ends_le_begins_succ n)

theorem ends_le_begins (h : m < n) : t.ends m ≤ t.begins n :=
  Nat.le_trans (t.ends_le_begins_succ m) (t.begins_mono h)

/-- A tick at which nothing runs is the beginning of the first sweep that begins no earlier. -/
theorem exists_begins_eq_tick (hpos : 0 < j)
    (hidle : ∀ n, ¬ (t.begins n < t.tick j ∧ t.tick j < t.ends n)) :
    ∃ n, t.begins n = t.tick j := by
  have hlate : ∃ n, t.tick j ≤ t.begins n := ⟨j, (tick_le_iff (t.origin_le_begins j)).mpr
    (Nat.le_of_lt (t.lt_passed_begins j))⟩
  refine ⟨Nat.find hlate, Nat.le_antisymm ?_ (Nat.find_spec hlate)⟩
  cases hfirst : Nat.find hlate with
  | zero => exact tick_le_tick hpos
  | succ n =>
    have hearly : t.begins n < t.tick j := by
      have := Nat.find_min hlate (m := n) (by omega)
      omega
    -- the sweep before it began earlier and is over, and neither has its next tick gone by
    have hover : t.ends n ≤ t.tick j := by
      have := hidle n
      omega
    have hnext : t.tick (t.passed (t.begins n) + 1) ≤ t.tick j :=
      tick_le_tick ((lt_tick_iff (t.origin_le_begins n)).mp hearly)
    exact Nat.max_le.mpr ⟨hover, hnext⟩

theorem begins_eq_tick (hshort : ∀ n, t.pause n ≤ t.interval) (n : Nat) :
    t.begins n = t.tick (n + 1) := by
  induction n with
  | zero => rfl
  | succ n ih =>
    have hpause := hshort n
    have hnext := t.tick_add_one (n + 1)
    show max (t.begins n + t.pause n) (t.tick (t.passed (t.begins n) + 1)) = _
    rw [ih, passed_tick]
    omega

theorem regular (t : Timetable) : t.Regular where
  begins_zero := congrArg (t.origin + ·) (Nat.one_mul _)
  begins_succ n := ⟨_, isLeast_tick (t.origin_le_begins n), rfl⟩
  ends_le m n h := ends_le_begins h
  eq_of_window j m n hm hn := by
    -- both have passed tick number `j` and no more
    have hpassed : ∀ n, t.tick j ≤ t.begins n ∧ t.begins n < t.tick (j + 1) →
        t.passed (t.begins n) = j := by
      intro n hwindow
      rw [tick_le_iff (t.origin_le_begins n), lt_tick_iff (t.origin_le_begins n)] at hwindow
      omega
    exact t.passed_begins_strictMono.injective ((hpassed m hm).trans (hpassed n hn).symm)
  exists_begins j hpos hidle := exists_begins_eq_tick hpos hidle
  begins_eq hshort := begins_eq_tick hshort

/-! ## Happenings -/

theorem happening_even (t : Timetable) (n : Nat) : t.happening (2 * n) = .began (t.begins n) := by
  have hmod : 2 * n % 2 = 0 := by omega
  have hdiv : 2 * n / 2 = n := by omega
  rw [happening, if_pos hmod, hdiv]

theorem happening_odd (t : Timetable) (n : Nat) : t.happening (2 * n + 1) = .ended (t.ends n) := by
  have hmod : ¬ (2 * n + 1) % 2 = 0 := by omega
  have hdiv : (2 * n + 1) / 2 = n := by omega
  rw [happening, if_neg hmod, hdiv]

theorem moment_happening_mono (t : Timetable) : Monotone fun i => (t.happening i).moment := by
  refine monotone_nat_of_le_succ fun i => ?_
  obtain ⟨n, rfl | rfl⟩ := i.even_or_odd'
  · rw [happening_even, happening_odd]
    exact Nat.le_add_right _ _
  · rw [happening_odd, show 2 * n + 1 + 1 = 2 * (n + 1) by omega, happening_even]
    exact t.ends_le_begins_succ n

/-- Where sweeps begin and end in turn, by `limit` there cannot be more of them than fuel. -/
theorem lt_moment_happening (t : Timetable) (limit : Nat) :
    limit < (t.happening (2 * (limit + 2))).moment := by
  rw [happening_even]
  have := t.lt_begins (limit + 2)
  simp only [Happening.moment]
  omega

/-- The tick that sweep number `n` waits for. -/
def due (t : Timetable) : Nat → Nat
  | 0 => t.tick 1
  | n + 1 => t.tick (t.passed (t.begins n) + 1)

/-- When sweep number `n` might begin, if its tick were there. -/
def free (t : Timetable) : Nat → Nat
  | 0 => t.origin
  | n + 1 => t.ends n

theorem begins_eq_max (t : Timetable) (n : Nat) : t.begins n = max (t.due n) (t.free n) := by
  cases n with
  | zero => exact (Nat.max_eq_left (Nat.le_add_right _ _)).symm
  | succ n => exact Nat.max_comm _ _

theorem exists_due_eq (t : Timetable) (n : Nat) : ∃ j, t.due n = t.tick j := by
  cases n with
  | zero => exact ⟨_, rfl⟩
  | succ n => exact ⟨_, rfl⟩

theorem due_le_begins (t : Timetable) (n : Nat) : t.due n ≤ t.begins n := by
  rw [begins_eq_max]
  exact Nat.le_max_left _ _

/-- The sweeper after so many happenings. -/
def sweeper (t : Timetable) (pacing : Pacing) (i : Nat) : Sweeper where
  pacing
  origin := t.origin
  interval := t.interval
  due := t.due ((i + 1) / 2)
  begun := (i + 1) / 2
  activity := if i % 2 = 0 then .waiting (t.free (i / 2)) else .sweeping (t.ends (i / 2))
  interval_pos := t.interval_pos

end Timetable

open Timetable

variable {t : Timetable} {pacing : Pacing} {i j n moment limit : Nat}

/-! ## One happening -/

/-- With a leeway below the period, the tick that follows is the first one after the moment, however
late that moment is. -/
theorem Sweeper.following_eq (s : Sweeper) (hperiod : s.period = t.interval)
    (hleeway : s.pacing.leeway < t.interval) (hdue : s.due = t.tick j) (hle : s.due ≤ moment) :
    s.following moment = t.tick (t.passed moment + 1) := by
  have hpos := t.interval_pos
  -- what has gone by since the origin is `j` intervals and what has gone by since the due tick
  have hsince : moment - t.origin = j * t.interval + (moment - s.due) := by
    rw [hdue] at hle ⊢
    simp only [tick] at hle ⊢
    omega
  have hpassed : t.passed moment = j + (moment - s.due) / t.interval := by
    rw [passed, hsince, Nat.mul_comm, Nat.mul_add_div hpos]
  rw [following, hpassed, hperiod]
  split
  case isTrue hsoon =>
    have hzero : (moment - s.due) / t.interval = 0 := Nat.div_eq_of_lt (by omega)
    rw [hzero, hdue, Nat.add_zero, tick_add_one]
  case isFalse =>
    rw [nextMultiple, hdue, tick, tick, Nat.add_assoc, ← Nat.add_mul, ← Nat.add_assoc]

theorem sweeper_even (t : Timetable) (pacing : Pacing) (n : Nat) :
    t.sweeper pacing (2 * n) =
      ⟨pacing, t.origin, t.interval, t.due n, n, .waiting (t.free n), t.interval_pos⟩ := by
  have hmod : 2 * n % 2 = 0 := by omega
  have hdiv : 2 * n / 2 = n := by omega
  have hbegun : (2 * n + 1) / 2 = n := by omega
  simp only [sweeper, hmod, hdiv, hbegun, if_true]

theorem sweeper_odd (t : Timetable) (pacing : Pacing) (n : Nat) :
    t.sweeper pacing (2 * n + 1) =
      ⟨pacing, t.origin, t.interval, t.due (n + 1), n + 1, .sweeping (t.ends n),
        t.interval_pos⟩ := by
  have hmod : (2 * n + 1) % 2 = 1 := by omega
  have hdiv : (2 * n + 1) / 2 = n := by omega
  have hbegun : (2 * n + 1 + 1) / 2 = n + 1 := by omega
  simp only [sweeper, hmod, hdiv, hbegun, Nat.one_ne_zero, if_false]

theorem next?_sweeper (t : Timetable) (pacing : Pacing) (i : Nat) :
    (t.sweeper pacing i).next? = some (t.happening i).moment := by
  obtain ⟨n, rfl | rfl⟩ := i.even_or_odd'
  · rw [sweeper_even, happening_even]
    exact congrArg some (t.begins_eq_max n).symm
  · rw [sweeper_odd, happening_odd]
    rfl

/-- What happens next is what the timetable has next. -/
theorem step_sweeper (hleeway : pacing.leeway < t.interval)
    (hperiod : pacing.period t.interval = t.interval) (i : Nat) :
    (t.sweeper pacing i).step true (t.pause (t.sweeper pacing i).begun) =
      (t.sweeper pacing (i + 1), some (t.happening i)) := by
  obtain ⟨n, rfl | rfl⟩ := i.even_or_odd'
  · obtain ⟨j, hj⟩ := t.exists_due_eq n
    have hfollowing : (t.sweeper pacing (2 * n)).following (t.begins n) =
        t.tick (t.passed (t.begins n) + 1) := by
      refine Sweeper.following_eq _ (j := j) hperiod hleeway ?_ ?_
      · rw [sweeper_even]
        exact hj
      · rw [sweeper_even]
        exact t.due_le_begins n
    rw [sweeper_even] at hfollowing
    rw [sweeper_even, sweeper_odd, happening_even]
    simp only [Sweeper.step, ← t.begins_eq_max n, hfollowing, if_true]
    rfl
  · rw [sweeper_odd, show 2 * n + 1 + 1 = 2 * (n + 1) by omega, sweeper_even, happening_odd]
    rfl

/-! ## Runs -/

namespace Sweeper

variable {s u : Sweeper} {alive : Bool} {pause : Nat → Nat} {happened : Happening}

theorem runFor_of_le (hnext : s.next? = some moment) (hle : moment ≤ limit)
    (hstep : s.step alive (pause s.begun) = (u, some happened)) (fuel : Nat) :
    runFor alive pause limit (fuel + 1) s =
      ((runFor alive pause limit fuel u).1, happened :: (runFor alive pause limit fuel u).2) := by
  simp only [runFor, hnext, hle, if_true, hstep]
  rfl

theorem runFor_of_lt (hnext : s.next? = some moment) (hlt : limit < moment) (fuel : Nat) :
    runFor alive pause limit fuel s = (s, []) := by
  have hlate : ¬ moment ≤ limit := Nat.not_le.mpr hlt
  cases fuel with
  | zero => rfl
  | succ fuel => simp only [runFor, hnext, hlate, if_false]

theorem runFor_of_over (hover : s.next? = none) (fuel : Nat) :
    runFor alive pause limit fuel s = (s, []) := by
  cases fuel with
  | zero => rfl
  | succ fuel => simp only [runFor, hover]

theorem next?_abort (s : Sweeper) : s.abort.next? = none := by
  unfold abort
  split
  case h_1 h => simp only [next?, h]
  case h_2 => rfl

end Sweeper

/-- While the target is there, no more happens by `limit` than the timetable has, and no less unless
the fuel runs out. -/
theorem runFor_sweeper (hleeway : pacing.leeway < t.interval)
    (hperiod : pacing.period t.interval = t.interval) (limit fuel i : Nat) :
    ∃ k, Sweeper.runFor true t.pause limit fuel (t.sweeper pacing i) =
        (t.sweeper pacing (i + k), (List.range' i k).map t.happening) ∧
      (∀ j, j < k → (t.happening (i + j)).moment ≤ limit) ∧
      (k = fuel ∨ k < fuel ∧ limit < (t.happening (i + k)).moment) := by
  induction fuel generalizing i with
  | zero => exact ⟨0, rfl, nofun, .inl rfl⟩
  | succ fuel ih =>
    have hnext := next?_sweeper t pacing i
    by_cases hcome : (t.happening i).moment ≤ limit
    · obtain ⟨k, hrun, hcame, hrest⟩ := ih (i + 1)
      have hsucc : ∀ j, i + (j + 1) = i + 1 + j := fun j => by omega
      refine ⟨k + 1, ?_, fun j hj => ?_, ?_⟩
      · rw [Sweeper.runFor_of_le hnext hcome (step_sweeper hleeway hperiod i), hrun, hsucc k,
          List.range'_succ, List.map_cons]
      · cases j with
        | zero => exact hcome
        | succ j =>
          rw [hsucc]
          exact hcame j (by omega)
      · rw [hsucc]
        omega
    · refine ⟨0, ?_, nofun, .inr ⟨Nat.succ_pos _, by simpa using hcome⟩⟩
      exact Sweeper.runFor_of_lt hnext (by simpa using hcome) _

/-- A sweeper that waits finds that its target has gone at the tick it waits for. -/
theorem step_waiting_of_gone (t : Timetable) (pacing : Pacing) (n pause : Nat) :
    ∃ s, s.next? = none ∧
      (t.sweeper pacing (2 * n)).step false pause = (s, some (.stopped (t.begins n))) := by
  rw [sweeper_even]
  simp only [Sweeper.step, ← t.begins_eq_max n, Bool.false_eq_true, if_false]
  exact ⟨_, rfl, rfl⟩

/-- A sweep that is running ends, target or no target. -/
theorem step_sweeping_of_gone (t : Timetable) (pacing : Pacing) (n pause : Nat) :
    (t.sweeper pacing (2 * n + 1)).step false pause =
      (t.sweeper pacing (2 * (n + 1)), some (.ended (t.ends n))) := by
  rw [sweeper_odd, sweeper_even]
  rfl

theorem runFor_waiting_of_gone (t : Timetable) (pacing : Pacing) (limit fuel n : Nat) :
    (Sweeper.runFor false t.pause limit (fuel + 1) (t.sweeper pacing (2 * n))).2 =
      [Happening.stopped (t.begins n)].filter fun h => h.moment ≤ limit := by
  have hnext := next?_sweeper t pacing (2 * n)
  obtain ⟨s, hover, hstep⟩ :=
    step_waiting_of_gone t pacing n (t.pause (t.sweeper pacing (2 * n)).begun)
  rw [happening_even] at hnext
  by_cases hcome : t.begins n ≤ limit
  · rw [Sweeper.runFor_of_le hnext hcome hstep, Sweeper.runFor_of_over hover]
    simp [Happening.moment, hcome]
  · rw [Sweeper.runFor_of_lt hnext (Nat.lt_of_not_le hcome)]
    simp [Happening.moment, hcome]

theorem runFor_sweeping_of_gone (t : Timetable) (pacing : Pacing) (limit fuel n : Nat) :
    (Sweeper.runFor false t.pause limit (fuel + 2) (t.sweeper pacing (2 * n + 1))).2 =
      [Happening.ended (t.ends n), .stopped (t.begins (n + 1))].filter
        fun h => h.moment ≤ limit := by
  have hnext := next?_sweeper t pacing (2 * n + 1)
  rw [happening_odd] at hnext
  by_cases hcome : t.ends n ≤ limit
  · rw [Sweeper.runFor_of_le hnext hcome (step_sweeping_of_gone t pacing n _)]
    simp only [runFor_waiting_of_gone]
    rw [List.filter_cons_of_pos (a := Happening.ended (t.ends n)) (decide_eq_true hcome)]
  · -- what comes later does not come in time either
    have hlater := t.ends_le_begins_succ n
    have hnever : ¬ t.begins (n + 1) ≤ limit := by omega
    rw [Sweeper.runFor_of_lt hnext (Nat.lt_of_not_le hcome)]
    simp [Happening.moment, hcome, hnever]

/-! ## A sweeper and its timetable -/

/-- What a sweeper does is what its timetable has. -/
structure Sweeper.Keeps (s : Sweeper) (t : Timetable) : Prop where
  /-- By any moment, as long as the target is there, that much of the timetable has happened. -/
  kept : ∀ limit, ∃ k,
    (s.runUntil true t.pause limit).2 = (List.range k).map t.happening ∧
      ∀ i, i < k ↔ (t.happening i).moment ≤ limit
  /-- The target goes at some moment; of what was to happen at that very moment, any part may have
  happened before. A sweep that is running then still ends, and no other begins: the next tick
  ends the sweeper. -/
  dropped : ∀ limit fuel, ∃ k,
    (runFor true t.pause limit fuel s).2 = (List.range k).map t.happening ∧
      (∀ i, i < k → (t.happening i).moment ≤ limit) ∧
      (k = fuel ∨ k < fuel ∧ limit < (t.happening k).moment) ∧
      ∀ later, ((runFor true t.pause limit fuel s).1.runUntil false t.pause later).2 =
        ((if k % 2 = 1 then [Happening.ended (t.ends (k / 2))] else []) ++
          [Happening.stopped (t.begins ((k + 1) / 2))]).filter fun h => h.moment ≤ later
  /-- Once the sweeper is stopped, nothing happens any more. -/
  aborted : ∀ limit fuel alive later,
    ((runFor true t.pause limit fuel s).1.abort.runUntil alive t.pause later).2 = []

section Keeping

variable (hleeway : pacing.leeway < t.interval) (hperiod : pacing.period t.interval = t.interval)

include hleeway hperiod

theorem exists_runUntil_sweeper (limit : Nat) :
    ∃ k, ((t.sweeper pacing 0).runUntil true t.pause limit).2 = (List.range k).map t.happening ∧
      ∀ i, i < k ↔ (t.happening i).moment ≤ limit := by
  obtain ⟨k, hrun, hcame, hrest⟩ := runFor_sweeper hleeway hperiod limit (2 * (limit + 2)) 0
  simp only [Nat.zero_add] at hrun hcame hrest
  have hlimit := t.lt_moment_happening limit
  refine ⟨k, ?_, fun i => ⟨hcame i, fun hi => ?_⟩⟩
  · rw [Sweeper.runUntil, hrun, List.range_eq_range']
  · -- there was fuel for more, so what comes after the last happening comes after `limit`
    by_contra hlate
    have hmono : (t.happening k).moment ≤ (t.happening i).moment :=
      t.moment_happening_mono (Nat.le_of_not_lt hlate)
    rcases hrest with rfl | ⟨-, hrest⟩
    · omega
    · omega

theorem exists_dropped_sweeper (limit fuel : Nat) :
    ∃ k, (Sweeper.runFor true t.pause limit fuel (t.sweeper pacing 0)).2 =
        (List.range k).map t.happening ∧
      (∀ i, i < k → (t.happening i).moment ≤ limit) ∧
      (k = fuel ∨ k < fuel ∧ limit < (t.happening k).moment) ∧
      ∀ later, ((Sweeper.runFor true t.pause limit fuel (t.sweeper pacing 0)).1.runUntil false
          t.pause later).2 =
        ((if k % 2 = 1 then [Happening.ended (t.ends (k / 2))] else []) ++
          [Happening.stopped (t.begins ((k + 1) / 2))]).filter fun h => h.moment ≤ later := by
  obtain ⟨k, hrun, hcame, hrest⟩ := runFor_sweeper hleeway hperiod limit fuel 0
  simp only [Nat.zero_add] at hrun hcame hrest
  refine ⟨k, ?_, hcame, hrest, fun later => ?_⟩
  · rw [hrun, List.range_eq_range']
  · rw [hrun, Sweeper.runUntil]
    obtain ⟨n, rfl | rfl⟩ := k.even_or_odd'
    · -- no sweep is running, and number `n` would have been the next
      have hnext : (2 * n + 1) / 2 = n := by omega
      rw [show 2 * (later + 2) = 2 * later + 3 + 1 by omega, runFor_waiting_of_gone]
      simp [hnext]
    · -- sweep number `n` is running
      have hlast : (2 * n + 1) / 2 = n := by omega
      have hnext : (2 * n + 1 + 1) / 2 = n + 1 := by omega
      rw [show 2 * (later + 2) = 2 * later + 2 + 2 by omega, runFor_sweeping_of_gone]
      simp [hlast, hnext]

theorem keeps_sweeper : (t.sweeper pacing 0).Keeps t where
  kept := exists_runUntil_sweeper hleeway hperiod
  dropped := exists_dropped_sweeper hleeway hperiod
  aborted limit fuel alive later := by
    rw [Sweeper.runUntil, Sweeper.runFor_of_over (Sweeper.next?_abort _)]

omit hleeway in
theorem start_eq_sweeper :
    Sweeper.start pacing t.interval t.origin t.interval_pos = t.sweeper pacing 0 := by
  have hdue : t.due 0 = t.origin + t.interval := congrArg (t.origin + ·) (Nat.one_mul _)
  simp only [Sweeper.start, hperiod, ← hdue]
  exact (sweeper_even t pacing 0).symm

end Keeping

/-- **Schedule.** Take any sweeper whose leeway is shorter than its interval, and whose interval is
not longer than it may be, so that a tick is followed by the first one after the moment at which it
was taken. Whatever its sweeps take, what it does is what its timetable has, and the timetable is
regular. -/
theorem keeps_timetable (t : Timetable) (pacing : Pacing) (hleeway : pacing.leeway < t.interval)
    (hlongest : t.interval ≤ pacing.longest) :
    (Sweeper.start pacing t.interval t.origin t.interval_pos).Keeps t ∧ t.Regular := by
  have hperiod : pacing.period t.interval = t.interval := Nat.min_eq_left hlongest
  rw [start_eq_sweeper hperiod]
  exact ⟨keeps_sweeper hleeway hperiod, t.regular⟩

/-- The first sweep runs over two ticks, so that the second begins late and ends late in its turn.
The third one takes no time, and the fourth begins on its tick. -/
theorem keeps_timetable_of_overrun :
    let pacing : Pacing := ⟨0, 100, by decide⟩
    let t : Timetable := ⟨10, 0, fun n => [25, 10, 0].getD n 7, by decide⟩
    let s := Sweeper.start pacing 10 0 (by decide)
    pacing.leeway < t.interval ∧ t.interval ≤ pacing.longest ∧
      (s.runUntil true t.pause 50).2 =
        [.began 10, .ended 35, .began 35, .ended 45, .began 45, .ended 45, .began 50] ∧
      ((s.runUntil true t.pause 30).1.runUntil false t.pause 50).2 = [.ended 35, .stopped 35] ∧
      s.Keeps t ∧ t.Regular := by
  intro pacing t s
  have hleeway : pacing.leeway < t.interval := by decide
  have hlongest : t.interval ≤ pacing.longest := by decide
  exact ⟨hleeway, hlongest, by decide +kernel, by decide +kernel,
    keeps_timetable t pacing hleeway hlongest⟩

end ExpiringCache
