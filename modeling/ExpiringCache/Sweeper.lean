import ExpiringCache.Event

/-!
# Sweepers

A sweeper calls for a sweep again and again. It is asked for some interval and keeps a period, which
is that interval, or the longest period of its pacing if the interval is longer. It has ticks at the
multiples of its period, counted from the moment it was started; the tick at that moment itself
calls for nothing. A sweep runs to its end before the next one begins, so a tick that falls into a
running sweep is taken late, right after it. What comes after a late tick depends on how late it is.
Within the sweeper's leeway no tick is lost: the next one is taken in its turn, at once if it is
overdue too. Beyond the leeway the ticks missed meanwhile are passed over, and the next one is the
first multiple of the period still to come. With a period above the leeway, or with no leeway at
all, both rules name the same tick.

* `Sweeper.next?` is the moment at which something happens next;
* `Sweeper.step` lets it happen: a sweep begins or ends, or the sweeper finds that what it swept
  is gone and finishes;
* `Sweeper.runUntil` lets everything happen that is due by some moment.

Sweepers run on a host, which is given from outside. It has the timer, and so the pacing of all its
sweepers, and it is the host that says where time stops for a sweeper to look at the clock.

Moments are milliseconds on a clock that only moves forward.
-/

namespace ExpiringCache

/-- What a sweeper is doing. -/
inductive Activity where
  /-- It has waited since this moment for its next tick. -/
  | waiting (since : Nat)
  /-- A sweep is running and ends at this moment. -/
  | sweeping (ends : Nat)
  /-- It found its target gone. -/
  | finished
  /-- It was stopped from outside; nothing it did is carried on. -/
  | aborted
deriving DecidableEq, Repr

/-- How a sweeper deals with late ticks and with long intervals. -/
structure Pacing where
  /-- How late a tick may be taken with none of the ticks after it passed over. -/
  leeway : Nat
  /-- The longest period that a sweeper keeps. -/
  longest : Nat
  longest_pos : 0 < longest
deriving DecidableEq

/-- The pacing of sweepers for which no other is given: five milliseconds late at most, and thirty
years of 365 days apart at most. -/
def Pacing.usual : Pacing := ⟨5, 30 * 365 * 24 * 60 * 60 * 1000, by decide⟩

/-- The period that is kept by a sweeper asked for `interval`. -/
def Pacing.period (pacing : Pacing) (interval : Nat) : Nat := min interval pacing.longest

/-- The first moment after `moment` that is a whole number of steps after `base`. -/
def nextMultiple (step base moment : Nat) : Nat :=
  base + ((moment - base) / step + 1) * step

theorem lt_nextMultiple {step : Nat} (pos : 0 < step) (base moment : Nat) :
    moment < nextMultiple step base moment := by
  have hlt := Nat.lt_mul_div_succ (moment - base) pos
  rw [Nat.mul_comm] at hlt
  unfold nextMultiple
  omega

/-- What sweepers run on. -/
structure Host where
  /-- The pacing that the host's timer gives to all sweepers. -/
  pacing : Pacing
  /-- Where time stops next after `clock` on behalf of a sweeper that was started at `origin` and
  asked for `interval`. -/
  stop (origin interval clock : Nat) : Nat
  lt_stop {interval : Nat} (pos : 0 < interval) (origin clock : Nat) :
    clock < stop origin interval clock

/-- The host of sessions for which no other is given. Its time stops at the multiples of the
interval asked for, whatever period is kept. -/
def Host.usual : Host where
  pacing := .usual
  stop origin interval clock := nextMultiple interval origin clock
  lt_stop := lt_nextMultiple

/-- A sweeper, by its ticks and by what it is doing. -/
structure Sweeper where
  pacing : Pacing
  /-- When it was started. -/
  origin : Nat
  /-- The interval asked for. -/
  interval : Nat
  /-- The tick that comes next, or is overdue. -/
  due : Nat
  /-- How many sweeps have begun. -/
  begun : Nat
  activity : Activity
  interval_pos : 0 < interval
deriving DecidableEq

/-- What a sweeper does at one moment. -/
inductive Happening where
  | began (moment : Nat)
  | ended (moment : Nat)
  | stopped (moment : Nat)
deriving DecidableEq, Repr

namespace Sweeper

/-- A sweeper started at `now`. -/
def start (pacing : Pacing) (interval now : Nat) (pos : 0 < interval) : Sweeper :=
  ⟨pacing, now, interval, now + pacing.period interval, 0, .waiting now, pos⟩

/-- Starts a sweeper at `now`, unless its interval is zero or there is nothing to run it. -/
def start? {α : Type} (hosted : Bool) (interval now : Nat) (pacing : Pacing := .usual) :
    Option Sweeper × List (Event α) :=
  if pos : 0 < interval then
    if hosted then (some (start pacing interval now pos), [.sweeperStarted interval])
    else (none, [.hostMissing])
  else (none, [.intervalZero])

/-- It does nothing any more. -/
def isOver (s : Sweeper) : Bool :=
  match s.activity with
  | .finished | .aborted => true
  | .waiting _ | .sweeping _ => false

/-- What lies between its ticks. -/
def period (s : Sweeper) : Nat := s.pacing.period s.interval

/-- The tick that follows the one at `s.due`, once that one is taken at `moment`. -/
def following (s : Sweeper) (moment : Nat) : Nat :=
  if moment ≤ s.due + s.pacing.leeway then s.due + s.period
  else nextMultiple s.period s.due moment

/-- When something happens next: the end of the running sweep, or else the next tick, which is taken
at once if it is overdue. -/
def next? (s : Sweeper) : Option Nat :=
  match s.activity with
  | .waiting since => some (max s.due since)
  | .sweeping ends => some ends
  | .finished | .aborted => none

/-- Lets the next thing happen. The sweep that begins takes `pause`; `alive` says whether there
still is something to sweep. -/
def step (s : Sweeper) (alive : Bool) (pause : Nat) : Sweeper × Option Happening :=
  match s.activity with
  | .waiting since =>
    let moment := max s.due since
    let ticked := { s with due := s.following moment }
    if alive then
      ({ ticked with begun := s.begun + 1, activity := .sweeping (moment + pause) },
        some (.began moment))
    else ({ ticked with activity := .finished }, some (.stopped moment))
  | .sweeping ends => ({ s with activity := .waiting ends }, some (.ended ends))
  | .finished | .aborted => (s, none)

/-- A sweeper that is kept from looking at the clock before `moment`: a tick due by then is taken
then. -/
def sleepUntil (s : Sweeper) (moment : Nat) : Sweeper :=
  match s.activity with
  | .waiting since => { s with activity := .waiting (max since moment) }
  | _ => s

/-- Stops the sweeper. -/
def abort (s : Sweeper) : Sweeper :=
  match s.activity with
  | .finished => s
  | _ => { s with activity := .aborted }

/-- At most `fuel` steps, and none after the moment `limit`; `pause n` is what sweep number `n`
takes. -/
def runFor (alive : Bool) (pause : Nat → Nat) (limit : Nat) :
    Nat → Sweeper → Sweeper × List Happening
  | 0, s => (s, [])
  | fuel + 1, s =>
    match s.next? with
    | none => (s, [])
    | some moment =>
      if moment ≤ limit then
        let stepped := s.step alive (pause s.begun)
        let rest := runFor alive pause limit fuel stepped.1
        (rest.1, stepped.2.toList ++ rest.2)
      else (s, [])

/-- Everything that happens by the moment `limit`. Each sweep that begins uses up a tick of its own
between the origin and `limit`, so that at most `limit` sweeps begin, and at most one more ends. -/
def runUntil (s : Sweeper) (alive : Bool) (pause : Nat → Nat) (limit : Nat) :
    Sweeper × List Happening :=
  runFor alive pause limit (2 * (limit + 2)) s

end Sweeper

/-- Where time stops next after `clock` for a sweeper, unless that is over. -/
def Host.stop? (host : Host) (s : Sweeper) (clock : Nat) : Option Nat :=
  if s.isOver then none else some (host.stop s.origin s.interval clock)

/-! ## A sweeper on trial -/

/-- A sweeper whose target only takes time: sweep number `n` takes the pause at `n`, counted round
the list of pauses. -/
structure Trial where
  sweeper : Sweeper
  pauses : List Nat
  clock : Nat
  alive : Bool
  /-- How many sweeps have ended. -/
  completed : Nat

namespace Trial

/-- The trial at the moment zero. -/
def start (sweeper : Sweeper) (pauses : List Nat) : Trial := ⟨sweeper, pauses, 0, true, 0⟩

/-- What sweep number `n` takes. -/
def pause (t : Trial) (n : Nat) : Nat := (t.pauses[n % t.pauses.length]?).getD 0

/-- Lets time pass; answers with what the sweeper did meanwhile. -/
def advance (t : Trial) (ms : Nat) : Trial × List Happening :=
  let limit := t.clock + ms
  let run := t.sweeper.runUntil t.alive t.pause limit
  let ended := run.2.countP fun h => match h with
    | .ended _ => true
    | _ => false
  ({ t with sweeper := run.1, clock := limit, completed := t.completed + ended }, run.2)

/-- The target is gone. A sweep that is running still ends. -/
def drop (t : Trial) : Trial := { t with alive := false }

/-- The sweeper is stopped. A sweep that is running does not end. -/
def abort (t : Trial) : Trial := { t with sweeper := t.sweeper.abort }

end Trial

end ExpiringCache
