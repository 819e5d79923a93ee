import ExpiringCache.Cache.Basic

/-!
# Sweeping

A sweep removes the expired entries in batches, one write section for each, so that other callers
can come between them. It ends with the first batch that is not full, and says how many deadlines
it took. A cache that is closed meanwhile ends it without a word.
-/

namespace ExpiringCache.Cache

variable {α β : Type} [Ord α] [Std.TransOrd α]

/-- One section of a sweep; answers with the number of deadlines taken, `none` once closed. -/
def sweepBatch (c : Cache α β) (order : Arrangement α) (now : Instant) : Turn α β (Option Nat) :=
  c.writing none fun s =>
    let purged := s.purgeDue order now (some c.batch)
    ⟨purged.2, some purged.1, []⟩

/-- The sections of a sweep that has taken `removed` deadlines so far, at most `rounds` of them.
`orders n` is the arrangement of the section with `n` more to come at most. -/
def sweepRounds (orders : Nat → Arrangement α) (now : Instant) :
    Nat → Nat → Cache α β → Turn α β Unit
  | 0, removed, c => ⟨c, (), [.swept removed]⟩
  | rounds + 1, removed, c =>
    let turn := c.sweepBatch (orders rounds) now
    match turn.answer with
    | none => ⟨turn.cache, (), []⟩
    | some taken =>
      if taken < c.batch then ⟨turn.cache, (), [.swept (removed + taken)]⟩
      else sweepRounds orders now rounds (removed + taken) turn.cache

/-- A whole sweep with nobody coming between its sections. Each full batch takes a deadline, so
one more section than there are due deadlines is enough. -/
def sweep (c : Cache α β) (orders : Nat → Arrangement α) (now : Instant) : Turn α β Unit :=
  sweepRounds orders now (c.store.deadlines.countDue now + 1) 0 c

end ExpiringCache.Cache
