import ExpiringCache.Proofs.Sweeping

/-!
# Errands

What a caller asks of a cache from beginning to end, with every reading of the clock that it meets
on the way, and what it is told: the answers, and whether its loader ran.

* `Errand.perform` is one operation, `Errand.sweep` a whole sweep;
* `Errand.compute` is a computing call with nobody coming between its sections;
* `Errand.look` and `Errand.finish` are the two parts of a computing call, for callers who let
  others in between, as a loader that uses the cache itself does.
-/

namespace ExpiringCache

/-- Something asked of a cache. -/
inductive Errand (α β : Type) where
  | perform (op : Operation α β) (now : Instant)
  /-- A call whose loader ends with `outcome`. The clock shows `first` at the first look, `second`
  when the call has the lock, and `last` when the loader is done. -/
  | compute (call : Call α) (outcome : Except Fault (Option β)) (first second last : Instant)
  | look (call : Call α) (now : Instant)
  | finish (call : Call α) (outcome : Except Fault (Option β)) (now later : Instant)
  | sweep (orders : Nat → Arrangement α) (now : Instant)

/-- What is told of an errand. -/
inductive Report (α β : Type) where
  | answered (result : Except Fault (Answer α β))
  | looked (phase : Phase α β)
  /-- The result, and whether the loader ran. -/
  | computed (result : Except Fault (Answer α β)) (loaded : Bool)
  | swept

/-- What the clock shows during an errand, in order. -/
def Errand.readings {α β : Type} : Errand α β → List Instant
  | perform _ now | look _ now | sweep _ now => [now]
  | compute _ _ first second last => [first, second, last]
  | finish _ _ now later => [now, later]

namespace Cache

variable {α β : Type} [Ord α] [Std.TransOrd α] {c : Cache α β}

/-- Carries an errand out. -/
def carry (c : Cache α β) : Errand α β → Report α β × Cache α β
  | .perform op now =>
    let turn := c.perform op now
    (.answered turn.answer, turn.cache)
  | .compute call outcome first second last =>
    let turn := call.run c outcome first second last
    (.computed turn.answer.1 turn.answer.2, turn.cache)
  | .look call now =>
    let turn := call.look c now
    (.looked turn.answer, turn.cache)
  | .finish call outcome now later =>
    let turn := call.finish c outcome now later
    (.computed turn.answer.1 turn.answer.2, turn.cache)
  | .sweep orders now => (.swept, (c.sweep orders now).cache)

/-- A whole call is its first look and, if that does not end it, the rest. -/
theorem carry_compute (c : Cache α β) (call : Call α) (outcome : Except Fault (Option β))
    (first second last : Instant) :
    c.carry (.compute call outcome first second last) =
      match (call.look c first).answer with
      | .finished result => (.computed result false, (call.look c first).cache)
      | .waiting | .loading =>
        (call.look c first).cache.carry (.finish call outcome second last) := by
  cases h : (call.look c first).answer <;> simp [carry, Call.run, h]

/-- The sections of an errand. -/
def sections (c : Cache α β) : Errand α β → List (Section α β × Instant)
  | .perform op now => [(.perform op, now)]
  | .compute call outcome first second last =>
    (.look call, first) ::
      match (call.look c first).answer with
      | .finished _ => []
      | .waiting | .loading => [(.finish call outcome last, second)]
  | .look call now => [(.look call, now)]
  | .finish call outcome now later => [(.finish call outcome later, now)]
  | .sweep orders now => sweepSections orders now (c.store.deadlines.countDue now + 1) c

/-- An errand does what its sections do. -/
theorem carry_eq_enactAll (c : Cache α β) (errand : Errand α β) :
    (c.carry errand).2 = c.enactAll (c.sections errand) := by
  cases errand with
  | compute call outcome first second last =>
    rw [carry_compute, sections]
    cases (call.look c first).answer <;> rfl
  | sweep orders now => exact sweepRounds_eq_enactAll orders now _ 0 c
  | _ => rfl

variable [Std.LawfulEqOrd α]

theorem Consistent.carry (h : c.Consistent) (errand : Errand α β) :
    (c.carry errand).2.Consistent := by
  rw [carry_eq_enactAll]
  exact h.enactAll _

theorem capacity_carry (h : c.Consistent) (errand : Errand α β) :
    (c.carry errand).2.store.recency.capacity = c.store.recency.capacity := by
  rw [carry_eq_enactAll]
  exact capacity_enactAll h _

end Cache

end ExpiringCache
