import ExpiringCache.Proofs.Families
import ExpiringCache.Proofs.Sections

/-!
# Who serves a cache

A cache knows the number of the sweeper that serves it. Operations do not change that, except that
closing lets the sweeper go, and a session then stops it.

1. **Caches** (`Cache.service`): no section changes who serves the cache, or it leaves it closed and
   with no sweeper.
2. **Sessions** (`Session.Keeps`): the same for all that callers do to a session.
3. **Starting** (`startSweeper_of_pos`): the sweeper that is started takes the place of the other,
   which is stopped.
-/

namespace ExpiringCache

variable {α β ρ : Type} [Ord α] [Std.TransOrd α]

/-! ## Caches -/

namespace Cache

/-- What a cache has to do with sweepers: whether it is closed, and which one serves it. -/
def service (c : Cache α β) : Bool × Option Nat := (c.closed, c.sweeper)

variable {c : Cache α β}

/-- Nothing but closing changes it. -/
theorem service_after (c : Cache α β) (effect : Effect α β) :
    (c.after effect).service = c.service ∨ (c.after effect).service = (true, none) := by
  cases effect with
  | idle | miss | clear => exact .inl rfl
  | hit key =>
    left
    simp only [Cache.after, noteHit]
    split
    · split <;> rfl
    · rfl
  | write deeds =>
    left
    simp only [Cache.after, settle]
    split
    · rfl
    · split <;> rfl
  | shut | close => exact .inr rfl

theorem service_writing (c : Cache α β) (refused : ρ) (body : Store α β → Change α β ρ) :
    (c.writing refused body).cache.service = c.service := by
  simp only [writing, settle]
  split
  · rfl
  · split <;> rfl

theorem service_perform (c : Cache α β) (op : Operation α β) (now : Instant) :
    (c.perform op now).cache.service = c.service ∨
      (c.perform op now).cache.service = (true, none) := by
  rw [cache_perform]
  exact c.service_after _

theorem service_sweepRounds (orders : Nat → Arrangement α) (now : Instant) (rounds removed : Nat)
    (c : Cache α β) : (sweepRounds orders now rounds removed c).cache.service = c.service := by
  induction rounds generalizing removed c with
  | zero => rfl
  | succ rounds ih =>
    have hbatch : (c.sweepBatch (orders rounds) now).cache.service = c.service :=
      c.service_writing _ _
    simp only [sweepRounds]
    split
    · exact hbatch
    · split
      · exact hbatch
      · rw [ih, hbatch]

end Cache

namespace Call

open Cache

theorem service_look (call : Call α) (c : Cache α β) (now : Instant) :
    (call.look c now).cache.service = c.service ∨
      (call.look c now).cache.service = (true, none) := by
  rw [cache_look]
  exact c.service_after _

theorem service_enter (call : Call α) (c : Cache α β) (now : Instant) :
    (call.enter c now).cache.service = c.service := by
  unfold enter
  split
  · exact c.service_writing _ _
  · exact c.service_writing _ _
  · rfl

theorem service_conclude (call : Call α) (c : Cache α β) (outcome : Except Fault (Option β))
    (now : Instant) : (call.conclude c outcome now).cache.service = c.service := by
  unfold conclude
  cases outcome with
  | error fault => rfl
  | ok value =>
    dsimp only
    split
    · rfl
    · rfl
    · simp only [cache_map, storeUnlocked]
      split
      · rfl
      · exact c.service_writing _ _

end Call

/-! ## Sessions -/

namespace Session

variable {s t u : Session α β} {id interval clock : Nat}

/-- The sweepers once the one that serves the cache is stopped. -/
def relieved (s : Session α β) : Array Sweeper :=
  s.cache.sweeper.elim s.sweepers fun id => s.sweepers.modify id Sweeper.abort

/-- From `s` to `t` no time passed and no sweeper was started, but the cache may have been
closed. -/
def Keeps (s t : Session α β) : Prop :=
  t.clock = s.clock ∧ t.host = s.host ∧
    (t.cache.service = s.cache.service ∧ t.sweepers = s.sweepers ∨
      t.cache.service = (true, none) ∧ t.sweepers = s.relieved)

omit [Std.TransOrd α] in
theorem Keeps.refl (s : Session α β) : Keeps s s := ⟨rfl, rfl, .inl ⟨rfl, rfl⟩⟩

omit [Std.TransOrd α] in
theorem Keeps.trans (h : Keeps s t) (h' : Keeps t u) : Keeps s u := by
  obtain ⟨hclock, hhost, hfirst⟩ := h
  obtain ⟨hclock', hhost', hthen⟩ := h'
  refine ⟨hclock'.trans hclock, hhost'.trans hhost, ?_⟩
  rcases hfirst with ⟨hservice, hsweepers⟩ | ⟨hservice, hsweepers⟩
  · have hsweeper : t.cache.sweeper = s.cache.sweeper := congrArg Prod.snd hservice
    rwa [relieved, hsweeper, hservice, hsweepers, ← relieved] at hthen
  · have hsweeper : t.cache.sweeper = none := congrArg Prod.snd hservice
    rcases hthen with ⟨hservice', hsweepers'⟩ | ⟨hservice', hsweepers'⟩
    · exact .inr ⟨hservice'.trans hservice, hsweepers'.trans hsweepers⟩
    · rw [relieved, hsweeper, Option.elim_none] at hsweepers'
      exact .inr ⟨hservice', hsweepers'.trans hsweepers⟩

omit [Std.TransOrd α] in
theorem keeps_commit (turn : Turn α β ρ)
    (h : turn.cache.service = s.cache.service ∨ turn.cache.service = (true, none)) :
    Keeps s (s.commit turn).2 := by
  refine ⟨rfl, rfl, ?_⟩
  rcases h with hsame | hshut
  · refine .inl ⟨hsame, ?_⟩
    have hsweeper : turn.cache.sweeper = s.cache.sweeper := congrArg Prod.snd hsame
    simp only [commit, record, hsweeper]
    split
    · rfl
    · rename_i id hid
      rw [if_pos hid]
  · refine .inr ⟨hshut, ?_⟩
    have hsweeper : turn.cache.sweeper = none := congrArg Prod.snd hshut
    simp only [commit, record, hsweeper, relieved]
    cases s.cache.sweeper <;> rfl

theorem Leads.keeps (h : Leads s t) : Keeps s t := by
  induction h with
  | refl => exact .refl s
  | @perform t _ handle op ih =>
    refine ih.trans ?_
    unfold Session.perform
    dsimp only
    split
    · exact .refl t
    · exact keeps_commit _ (t.cache.service_perform op t.wall)
  | @look t _ handle call ih =>
    refine ih.trans ?_
    unfold Session.look
    split
    · exact .refl t
    · exact keeps_commit _ (call.service_look t.cache t.wall)
  | @enter t _ call ih => exact ih.trans (keeps_commit _ (.inl (call.service_enter _ _)))
  | @conclude t _ call outcome ih =>
    exact ih.trans (keeps_commit _ (.inl (call.service_conclude _ _ _)))
  | shiftWall _ ms ih => exact ih

theorem keeps_sweep (s : Session α β) : Keeps s s.sweep :=
  keeps_commit _ (.inl (Cache.service_sweepRounds _ _ _ _ _))

/-! ## Starting -/

omit [Std.TransOrd α] in
/-- Starting a sweeper takes no time, and it is started on the same host. -/
theorem clock_host_startSweeper (s : Session α β) (interval : Nat) :
    (s.startSweeper interval).clock = s.clock ∧ (s.startSweeper interval).host = s.host := by
  unfold startSweeper
  split
  · exact ⟨rfl, rfl⟩
  · dsimp only
    split <;> exact ⟨rfl, rfl⟩

omit [Std.TransOrd α] in
theorem startSweeper_of_closed (h : s.cache.closed = true) : s.startSweeper interval = s :=
  if_pos h

omit [Std.TransOrd α] in
/-- An interval of zero only stops the sweeper. -/
theorem startSweeper_zero (h : s.cache.closed = false) :
    (s.startSweeper 0).cache.service = (false, none) ∧
      (s.startSweeper 0).sweepers = s.relieved := by
  simp only [startSweeper, h, Sweeper.start?, commit, record, relieved]
  constructor
  · simp [Cache.service]
  · cases s.cache.sweeper <;> simp

omit [Std.TransOrd α] in
/-- Any other one also puts another sweeper in its place. -/
theorem startSweeper_of_pos (h : s.cache.closed = false)
    (hlt : s.cache.sweeper ≠ some s.sweepers.size) (hpos : 0 < interval) :
    (s.startSweeper interval).cache.service = (false, some s.sweepers.size) ∧
      (s.startSweeper interval).sweepers =
        s.relieved.push (.start s.host.pacing interval s.clock hpos) := by
  simp only [startSweeper, h, Sweeper.start?, hpos, commit, record, relieved]
  constructor
  · simp [Cache.service]
  · cases hsweeper : s.cache.sweeper with
    | none => simp
    | some id =>
      have hne : s.sweepers.size ≠ id := by
        rintro rfl
        exact hlt hsweeper
      simp [hne]

end Session

end ExpiringCache
