import ExpiringCache.Fault

/-!
# Settings

How large a cache may grow, how often it is swept, and how many entries a section of a sweep
removes at most. Settings are read from environment variables, where anything unreadable counts as
unset, or from a document, where anything unreadable makes the whole document unreadable.
`Settings.validate` says which settings a cache can work with.
-/

namespace ExpiringCache

/-- What a cache is set up with. -/
structure Settings where
  /-- The largest number of live entries; zero for any number. -/
  capacity : UInt64 := 0
  /-- Milliseconds between two sweeps. -/
  sweepInterval : UInt64 := 1000
  /-- The most entries that one section of a sweep removes. -/
  sweepBatch : UInt64 := 1000
deriving DecidableEq, Repr

namespace Settings

/-- A sweeper needs an interval, and a sweep has to make progress. The interval is looked at
first. -/
def validate (s : Settings) : Except Fault Unit :=
  if s.sweepInterval = 0 then
    .error (.invalidArgument "sweep_interval must be greater than zero")
  else if s.sweepBatch = 0 then
    .error (.invalidArgument "sweep_batch_size must be greater than zero")
  else .ok ()

/-! ## From the environment -/

/-- The value of one decimal digit. -/
def digit? (b : UInt8) : Option Nat :=
  if '0'.toUInt8 ≤ b ∧ b ≤ '9'.toUInt8 then some (b.toNat - '0'.toNat) else none

/-- The number that a row of decimal digits stands for, most significant first. -/
def digits? (bytes : List UInt8) : Option Nat :=
  bytes.foldl (fun n b => n.bind fun n => (digit? b).map (10 * n + ·)) (some 0)

/-- The bytes after a plus sign, or all of them if they begin with none. -/
def unsigned : List UInt8 → List UInt8
  | [] => []
  | b :: rest => if b = '+'.toUInt8 then rest else b :: rest

/-- A count below 2^64 in decimal, one plus sign allowed before it, and nothing else: no sign
alone, no space, no other digits than those of ASCII. -/
def count? (bytes : List UInt8) : Option UInt64 :=
  if (unsigned bytes).isEmpty then none
  else (digits? (unsigned bytes)).bind fun n =>
    if n < UInt64.size then some (UInt64.ofNat n) else none

/-- Settings from environment variables, given as bytes. -/
def ofEnvironment (value? : String → Option (List UInt8)) : Settings where
  capacity := ((value? "CACHE_LRU_CAPACITY").bind count?).getD 0
  sweepInterval := ((value? "CACHE_SWEEP_INTERVAL_MS").bind count?).getD 1000
  sweepBatch := ((value? "CACHE_SWEEP_BATCH_SIZE").bind count?).getD 1000

/-! ## From a document -/

/-- A document that may hold settings. A value that is not a count below 2^64 is `none`. -/
inductive Document where
  /-- Named values. -/
  | record (fields : List (String × Option UInt64))
  /-- Values by position: capacity, sweep interval, sweep batch. -/
  | row (items : List (Option UInt64))
  /-- Anything else. -/
  | other
deriving DecidableEq, Repr

/-- The value of a field that may be missing, but not unreadable or given twice. -/
def field? (fields : List (String × Option UInt64)) (name : String) (default : UInt64) :
    Option UInt64 :=
  match fields.filter (·.1 = name) with
  | [] => some default
  | [(_, value)] => value
  | _ => none

/-- The value at a position, where values may be missing at the end. -/
def item? (items : List (Option UInt64)) (i : Nat) (default : UInt64) : Option UInt64 :=
  (items[i]?).getD (some default)

/-- Settings from a document. Fields with other names are ignored; a fourth value in a row is not
allowed. -/
def ofDocument? : Document → Option Settings
  | .record fields => do
    let capacity ← field? fields "lru_capacity" 0
    let sweepInterval ← field? fields "sweep_interval" 1000
    let sweepBatch ← field? fields "sweep_batch_size" 1000
    return { capacity, sweepInterval, sweepBatch }
  | .row items =>
    if 3 < items.length then none
    else do
      let capacity ← item? items 0 0
      let sweepInterval ← item? items 1 1000
      let sweepBatch ← item? items 2 1000
      return { capacity, sweepInterval, sweepBatch }
  | .other => none

end Settings

end ExpiringCache
