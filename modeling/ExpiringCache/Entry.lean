import ExpiringCache.Fault
import ExpiringCache.Time

/-!
# Entries

An entry is a value with the moment at which it is over and its place in the order of use. An
entry is expired from its deadline on, whether or not it is still stored.
-/

namespace ExpiringCache

/-- A stored value. -/
structure Entry (β : Type) where
  value : β
  /-- The first moment at which the entry is expired; `none` if it never is. -/
  deadline : Option Instant
  /-- Its position in the order of use; `none` while no order is kept. -/
  position : Option Nat
deriving DecidableEq

namespace Entry

variable {β : Type}

/-- An entry written at `now`, not yet in the order of use. -/
def fresh (value : β) (lifetime : Lifetime) (now : Instant) : Entry β :=
  ⟨value, lifetime.deadline now, none⟩

/-- The deadline has been reached. -/
def isExpiredAt (e : Entry β) (now : Instant) : Bool :=
  match e.deadline with
  | none => false
  | some deadline => decide (deadline ≤ now)

/-- The entry answers for its key. -/
def isLiveAt (e : Entry β) (now : Instant) : Bool := !e.isExpiredAt now

theorem isExpiredAt_iff {e : Entry β} {now : Instant} :
    e.isExpiredAt now = true ↔ ∃ t, e.deadline = some t ∧ t ≤ now := by
  cases h : e.deadline <;> simp [isExpiredAt, h]

theorem isLiveAt_iff {e : Entry β} {now : Instant} :
    e.isLiveAt now = true ↔ ∀ t, e.deadline = some t → now < t := by
  cases h : e.deadline <;> simp [isLiveAt, isExpiredAt, h, Instant.le_def, Instant.lt_def]

/-- A live entry was live before. -/
theorem isLiveAt_of_le {e : Entry β} {now later : Instant} (hle : now ≤ later)
    (h : e.isLiveAt later = true) : e.isLiveAt now = true := by
  rw [isLiveAt_iff] at h ⊢
  intro t ht
  have hlater := h t ht
  rw [Instant.lt_def] at hlater ⊢
  rw [Instant.le_def] at hle
  omega

/-- What remains of the entry's lifetime. The gap to a deadline is a 64-bit number, so a clock
far before it, or far after, is a fault. -/
def timeLeftAt (e : Entry β) (now : Instant) : Except Fault TimeLeft :=
  match e.deadline with
  | none => .ok .unlimited
  | some deadline =>
    match deadline.since? now with
    | none => .error (.overflow .difference)
    | some gap => .ok (if 0 < gap then .millis gap.toNat else .absent)

end Entry

end ExpiringCache
