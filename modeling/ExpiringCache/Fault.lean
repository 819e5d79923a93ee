import ExpiringCache.Text.Quoted

/-!
# Faults

What a cache operation can fail with. A key that is missing or expired is not a fault: the answer
says so. `Fault.message` is the wording, `Fault.causes` what lies behind a failed loader, and
`Fault.description` the one-line form for people who read traces.
-/

namespace ExpiringCache

/-- What a failed loader reports: a first cause, and what was said about it on the way up. -/
structure Cause where
  root : String
  /-- Remarks added on the way up, the first one added first. -/
  remarks : List String
deriving DecidableEq, Repr

namespace Cause

/-- From the last remark down to the first cause. -/
def chain (c : Cause) : List String := c.remarks.reverse ++ [c.root]

/-- The last remark, or the first cause if nobody remarked on it. -/
def text (c : Cause) : String := c.remarks.getLast?.getD c.root

end Cause

/-- The two places where 64-bit arithmetic on times and counters can leave its range. -/
inductive Arithmetic where
  /-- A deadline less a clock reading. -/
  | difference
  /-- Hits and misses together. -/
  | sum
deriving DecidableEq, Repr

/-- Why an operation has no answer. -/
inductive Fault where
  /-- A setting or an argument that the cache cannot work with. -/
  | invalidArgument (detail : String)
  /-- A store outside this process failed. -/
  | backend (detail : String)
  /-- The caller's loader failed. -/
  | loader (cause : Cause)
  /-- The caller's scope was cancelled before the operation began. -/
  | cancelled
  /-- A result that 64 bits cannot hold. -/
  | overflow (operation : Arithmetic)
deriving DecidableEq, Repr

namespace Fault

/-- The wording of a fault. -/
def message : Fault → String
  | invalidArgument detail => "Invalid argument: " ++ detail
  | backend detail => "Backend failure: " ++ detail
  | loader cause => "Loader failed: " ++ cause.text
  | cancelled => "Operation cancelled"
  | overflow .difference => "attempt to subtract with overflow"
  | overflow .sum => "attempt to add with overflow"

/-- What lies behind a fault, the nearest first. Only a loader's fault has anything behind it. -/
def causes : Fault → List String
  | loader cause => cause.chain
  | _ => []

/-- The fault and its detail on one line, where it has a detail that fits on one. -/
def description : Fault → Option String
  | invalidArgument detail => some ("InvalidArgument(" ++ Text.quoted detail ++ ")")
  | backend detail => some ("Backend(" ++ Text.quoted detail ++ ")")
  | cancelled => some "Cancelled"
  | loader _ | overflow _ => none

end Fault

end ExpiringCache
