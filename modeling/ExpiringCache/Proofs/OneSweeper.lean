import ExpiringCache.Proofs.Strides

/-!
# One sweeper for a cache

Sweepers are started and replaced, the cache is closed, and time passes, all in any order.
Whoever serves the cache then is the one that was started last. The host is given from outside,
and has to be prompt for the intervals that sweepers are started with.

1. **Who is there** (`Session.Staffed`): one sweeper at most is not stopped, and it waits for its
   tick. Every move keeps it so, if the host is prompt for what it starts (`Session.PromptFor`).
2. **Time** (`Session.Passes`): while time passes there are the sweeps of that sweeper, and no
   others.
3. **Whole runs** (`Session.StartedLast`, `Session.IsCurrent`): the sweeper by the history of the
   moves.
4. **All of it** (`Session.OneSweeper`).
-/

namespace ExpiringCache.Session

variable {α β : Type} [Ord α] [Std.TransOrd α] {s t : Session α β} {id interval : Nat} {w : Sweeper}

/-! ## Who is there -/

/-- The sweeper that serves the cache waits for its tick, all others are stopped, and nobody serves
a closed cache. -/
structure Staffed (s : Session α β) : Prop where
  ready : ∀ id, s.cache.sweeper = some id →
    ∃ w, s.sweepers[id]? = some w ∧ w.Ready s.host s.clock
  lone : s.Lone s.cache.sweeper
  none_of_closed : s.cache.closed = true → s.cache.sweeper = none

/-- A sweeper with this origin and interval is there and not stopped. -/
def Serves (s : Session α β) (origin interval : Nat) : Prop :=
  ∃ (id : Nat) (w : Sweeper), s.sweepers[id]? = some w ∧ w.activity ≠ .aborted ∧
    w.origin = origin ∧ w.interval = interval

variable {origin : Nat}

section Staff

omit [Std.TransOrd α]

theorem Staffed.not_aborted_iff (h : s.Staffed) (hw : s.sweepers[id]? = some w) :
    w.activity ≠ .aborted ↔ s.cache.sweeper = some id := by
  constructor
  · intro hrunning
    by_contra hne
    exact hrunning (h.lone id w hw hne)
  · intro hid
    obtain ⟨v, hv, hready⟩ := h.ready id hid
    obtain rfl := Option.some.inj (hw.symm.trans hv)
    exact hready.not_aborted

theorem Staffed.not_serves (h : s.Staffed) (hnone : s.cache.sweeper = none) :
    ¬ s.Serves origin interval := by
  rintro ⟨id, w, hw, hrunning, -⟩
  have hid := (h.not_aborted_iff hw).mp hrunning
  rw [hnone] at hid
  cases hid

theorem Staffed.serves_iff (h : s.Staffed) (hid : s.cache.sweeper = some id)
    (hw : s.sweepers[id]? = some w) :
    s.Serves origin interval ↔ w.origin = origin ∧ w.interval = interval := by
  constructor
  · rintro ⟨n, v, hv, hrunning, ho, hi⟩
    have hn := (h.not_aborted_iff hv).mp hrunning
    rw [hid, Option.some.injEq] at hn
    subst hn
    obtain rfl := Option.some.inj (hw.symm.trans hv)
    exact ⟨ho, hi⟩
  · rintro ⟨ho, hi⟩
    exact ⟨id, w, hw, (h.not_aborted_iff hw).mpr hid, ho, hi⟩

theorem Staffed.open_of_serves (h : s.Staffed) (hserves : s.Serves origin interval) :
    s.cache.closed = false := by
  rw [← Bool.not_eq_true]
  intro hclosed
  exact h.not_serves (h.none_of_closed hclosed) hserves

theorem staffed_of_none (hnone : s.cache.sweeper = none)
    (hall : ∀ (id : Nat) (w : Sweeper), s.sweepers[id]? = some w → w.activity = .aborted) :
    s.Staffed := by
  refine ⟨fun id hid => ?_, fun id w hw _ => hall id w hw, fun _ => hnone⟩
  rw [hnone] at hid
  cases hid

theorem staffed_of_some (hopen : s.cache.closed = false) (hid : s.cache.sweeper = some id)
    (hw : s.sweepers[id]? = some w) (hready : w.Ready s.host s.clock)
    (hlone : s.Lone (some id)) : s.Staffed := by
  refine ⟨fun n hn => ?_, hid ▸ hlone, fun hclosed => ?_⟩
  · rw [hid, Option.some.injEq] at hn
    exact ⟨w, hn ▸ hw, hready⟩
  · rw [hopen] at hclosed
    cases hclosed

theorem staffed_ofCache (capacity batch : Nat) (guarded : Bool) (wall : Instant) (host : Host) :
    (ofCache (.empty capacity batch : Cache α β) guarded wall host).Staffed :=
  staffed_of_none rfl fun _ _ hw => nomatch hw

/-- Once the one that serves the cache is stopped, all are. -/
theorem Staffed.aborted_of_relieved (h : s.Staffed) (hw : s.relieved[id]? = some w) :
    w.activity = .aborted := by
  unfold relieved at hw
  cases hsweeper : s.cache.sweeper with
  | none =>
    rw [hsweeper, Option.elim_none] at hw
    exact h.lone id w hw (by rw [hsweeper]; nofun)
  | some n =>
    rw [hsweeper, Option.elim_some, Array.getElem?_modify] at hw
    split at hw
    · rename_i heq
      subst heq
      obtain ⟨v, hv, hready⟩ := h.ready n hsweeper
      obtain ⟨since, -, hwaiting⟩ := hready.waiting
      rw [hv, Option.map_some, Option.some.injEq] at hw
      rw [← hw]
      simp only [Sweeper.abort, hwaiting]
    · rename_i hne
      exact h.lone id w hw (by simpa [hsweeper] using hne)

/-! ### Moves -/

theorem Staffed.keeps (h : s.Staffed) (hkeeps : Keeps s t) : t.Staffed := by
  obtain ⟨hclock, hhost, ⟨hservice, hsweepers⟩ | ⟨hservice, hsweepers⟩⟩ := hkeeps
  · have hclosed : t.cache.closed = s.cache.closed := congrArg Prod.fst hservice
    have hsweeper : t.cache.sweeper = s.cache.sweeper := congrArg Prod.snd hservice
    constructor
    · rw [hsweeper, hsweepers, hclock, hhost]
      exact h.ready
    · rw [Lone, hsweeper, hsweepers]
      exact h.lone
    · rw [hclosed, hsweeper]
      exact h.none_of_closed
  · refine staffed_of_none (congrArg Prod.snd hservice) fun id w hw => ?_
    rw [hsweepers] at hw
    exact h.aborted_of_relieved hw

theorem Staffed.serves_keeps (h : s.Staffed) (hkeeps : Keeps s t) :
    t.Serves origin interval ↔ s.Serves origin interval ∧ t.cache.closed = false := by
  have ht := h.keeps hkeeps
  obtain ⟨-, -, ⟨hservice, hsweepers⟩ | ⟨hservice, -⟩⟩ := hkeeps
  · have hclosed : t.cache.closed = s.cache.closed := congrArg Prod.fst hservice
    rw [Serves, Serves, hsweepers, hclosed]
    exact (and_iff_left_of_imp h.open_of_serves).symm
  · have hclosed : t.cache.closed = true := congrArg Prod.fst hservice
    have hsweeper : t.cache.sweeper = none := congrArg Prod.snd hservice
    refine iff_of_false (ht.not_serves hsweeper) fun hopen => ?_
    rw [hclosed] at hopen
    cases hopen.2

theorem Staffed.sweeper_ne_size (h : s.Staffed) : s.cache.sweeper ≠ some s.sweepers.size := by
  intro hid
  obtain ⟨w, hw, -⟩ := h.ready _ hid
  exact absurd (Array.getElem?_eq_some_iff.mp hw).1 (Nat.lt_irrefl _)

/-- A sweeper that is started serves the cache, unless its interval is zero. -/
theorem Staffed.start (h : s.Staffed) (hopen : s.cache.closed = false)
    (hprompt : 0 < interval → s.host.Prompt interval) :
    (s.startSweeper interval).Staffed ∧ ∀ origin i,
      (s.startSweeper interval).Serves origin i ↔
        0 < interval ∧ origin = s.clock ∧ i = interval := by
  rcases Nat.eq_zero_or_pos interval with rfl | hpos
  · obtain ⟨hservice, hsweepers⟩ := startSweeper_zero hopen
    have hsweeper : (s.startSweeper 0).cache.sweeper = none := congrArg Prod.snd hservice
    have hstaffed : (s.startSweeper 0).Staffed := by
      refine staffed_of_none hsweeper fun id w hw => ?_
      rw [hsweepers] at hw
      exact h.aborted_of_relieved hw
    exact ⟨hstaffed, fun origin i =>
      iff_of_false (hstaffed.not_serves hsweeper) fun hlt => Nat.lt_irrefl 0 hlt.1⟩
  · obtain ⟨hservice, hsweepers⟩ := startSweeper_of_pos hopen h.sweeper_ne_size hpos
    obtain ⟨hclock, hhost⟩ := s.clock_host_startSweeper interval
    have hsweeper : (s.startSweeper interval).cache.sweeper = some s.sweepers.size :=
      congrArg Prod.snd hservice
    have hsize : s.relieved.size = s.sweepers.size := by
      unfold relieved
      cases s.cache.sweeper <;> simp
    have hnew : (s.startSweeper interval).sweepers[s.sweepers.size]? =
        some (.start s.host.pacing interval s.clock hpos) := by
      rw [hsweepers, ← hsize, Array.getElem?_push_size]
    have hready : (Sweeper.start s.host.pacing interval s.clock hpos).Ready
        (s.startSweeper interval).host (s.startSweeper interval).clock := by
      rw [hclock, hhost]
      exact Sweeper.ready_start (hprompt hpos) s.clock hpos
    have hstaffed : (s.startSweeper interval).Staffed := by
      refine staffed_of_some (congrArg Prod.fst hservice) hsweeper hnew hready
        fun n v hv hne => ?_
      have hne' : n ≠ s.relieved.size := by
        rintro rfl
        exact hne (by rw [hsize])
      rw [hsweepers, Array.getElem?_push, if_neg hne'] at hv
      exact h.aborted_of_relieved hv
    refine ⟨hstaffed, fun origin i => (hstaffed.serves_iff hsweeper hnew).trans ?_⟩
    simp only [Sweeper.start, hpos, true_and, eq_comm]

end Staff

/-! ### Time -/

theorem service_foldl_sweepAt (s : Session α β) (moments : List Nat) :
    (moments.foldl sweepAt s).cache.service = s.cache.service := by
  induction moments generalizing s with
  | nil => rfl
  | cons m moments ih => exact (ih (s.sweepAt m)).trans (s.service_sweepAt m)

theorem sweepers_foldl_sweepAt (s : Session α β) (moments : List Nat) :
    (moments.foldl sweepAt s).sweepers = s.sweepers := by
  induction moments generalizing s with
  | nil => rfl
  | cons m moments ih =>
    rw [List.foldl_cons, ih, sweepAt, sweep_eq]
    rfl

/-- What becomes of a session while time passes: a sweep at each of these moments, and by nobody but
the sweeper that serves the cache. -/
structure Passes (s t : Session α β) (limit : Nat) (moments : List Nat) : Prop where
  sorted : moments.Pairwise (· < ·)
  mem_iff : ∀ m, m ∈ moments ↔
    ∃ origin interval, s.Serves origin interval ∧ SweptAt origin interval s.clock limit m
  sweeps : t.staff s.sweepers = (moments.foldl sweepAt s).moveTo limit
  begun : ∀ (id : Nat) (w : Sweeper), s.sweepers[id]? = some w →
    ∃ u, t.sweepers[id]? = some u ∧
      u.begun = w.begun + (if w.activity = .aborted then 0 else moments.length)

theorem Passes.service_eq {moments : List Nat} (h : Passes s t limit moments) :
    t.cache.service = s.cache.service := by
  show (t.staff s.sweepers).cache.service = _
  rw [h.sweeps]
  exact s.service_foldl_sweepAt moments

/-- The strides of the sweeper that serves the cache are all that happens. -/
theorem Staffed.exists_passes {limit : Nat} (h : s.Staffed) (hid : s.cache.sweeper = some id)
    (hw : s.sweepers[id]? = some w) (hsweeps : SweepsUntil s t id w limit) :
    ∃ moments, Passes s t limit moments := by
  obtain ⟨moments, u, hsorted, hmem, -, hsame, rfl⟩ := hsweeps
  refine ⟨moments, hsorted, fun m => ?_, ?_, fun n v hv => ?_⟩
  · rw [hmem]
    constructor
    · intro hswept
      exact ⟨w.origin, w.interval, (h.serves_iff hid hw).mpr ⟨rfl, rfl⟩, hswept⟩
    · rintro ⟨origin, interval, hserves, hswept⟩
      obtain ⟨rfl, rfl⟩ := (h.serves_iff hid hw).mp hserves
      exact hswept
  · exact congrArg ((moments.foldl sweepAt s).moveTo limit).staff
      (s.sweepers_foldl_sweepAt moments).symm
  · show ∃ u', (s.sweepers.modify id fun _ => u)[n]? = some u' ∧ _
    rw [Array.getElem?_modify]
    by_cases hn : id = n
    · subst hn
      obtain rfl := Option.some.inj (hw.symm.trans hv)
      rw [if_pos rfl, hw, if_neg ((h.not_aborted_iff hw).mpr hid)]
      exact ⟨u, rfl, hsame.begun_eq⟩
    · have haborted := h.lone n v hv (by simpa [hid] using hn)
      rw [if_neg hn, if_pos haborted]
      exact ⟨v, hv, rfl⟩

/-- After them the same sweeper serves the cache. -/
theorem Staffed.of_sweepsUntil {limit : Nat} (h : s.Staffed) (hid : s.cache.sweeper = some id)
    (hw : s.sweepers[id]? = some w) (hhost : t.host = s.host)
    (hsweeps : SweepsUntil s t id w limit) :
    t.Staffed ∧ ∀ origin interval, t.Serves origin interval ↔ s.Serves origin interval := by
  obtain ⟨moments, u, -, -, hu, hsame, rfl⟩ := hsweeps
  generalize ht : ((moments.foldl sweepAt s).moveTo limit).staff (s.sweepers.modify id fun _ => u) =
    t at hhost ⊢
  have hservice : t.cache.service = s.cache.service := by
    rw [← ht]
    exact s.service_foldl_sweepAt moments
  have hopen : s.cache.closed = false :=
    h.open_of_serves ((h.serves_iff hid hw).mpr ⟨rfl, rfl⟩)
  have hclosed : t.cache.closed = s.cache.closed := congrArg Prod.fst hservice
  have hsweeper : t.cache.sweeper = s.cache.sweeper := congrArg Prod.snd hservice
  have hsweepers : t.sweepers = s.sweepers.modify id fun _ => u := by
    rw [← ht]
    rfl
  have hclock : t.clock = limit := by
    rw [← ht]
    rfl
  have hready : u.Ready t.host t.clock := by
    rw [hclock, hhost]
    exact hu
  have hkept : t.sweepers[id]? = some u := by
    rw [hsweepers, Array.getElem?_modify, if_pos rfl, hw, Option.map_some]
  have hstaffed : t.Staffed := by
    refine staffed_of_some (hclosed.trans hopen) (hsweeper.trans hid) hkept hready
      fun n v hv hne => ?_
    have hn : id ≠ n := by simpa using hne
    rw [hsweepers, Array.getElem?_modify, if_neg hn] at hv
    exact h.lone n v hv (by rwa [hid])
  refine ⟨hstaffed, fun origin interval => ?_⟩
  rw [hstaffed.serves_iff (hsweeper.trans hid) hkept, h.serves_iff hid hw, hsame.origin_eq,
    hsame.interval_eq]

/-- Time goes by with no sweeper, or with the one that serves the cache. -/
theorem Staffed.advance (h : s.Staffed) (ms : Nat) :
    (s.advance ms).Staffed ∧
      (∀ origin interval, (s.advance ms).Serves origin interval ↔ s.Serves origin interval) ∧
      ∃ moments, Passes s (s.advance ms) (s.clock + ms) moments := by
  have hle : s.clock ≤ s.clock + ms := Nat.le_add_right _ _
  have hfuel : s.clock + ms ≤ s.clock + ms := Nat.le_refl _
  cases hid : s.cache.sweeper with
  | none =>
    have hlone : s.Lone none := hid ▸ h.lone
    have hadvance : s.advance ms = s.moveTo (s.clock + ms) := stride_of_none hlone hle hfuel
    have hmoved : (s.moveTo (s.clock + ms)).Staffed :=
      staffed_of_none hid fun id w hw => hlone id w hw nofun
    rw [hadvance]
    refine ⟨hmoved, fun origin interval => .rfl, [], .nil, fun m => ?_, rfl, fun id w hw => ?_⟩
    · refine iff_of_false List.not_mem_nil ?_
      rintro ⟨origin, interval, hserves, -⟩
      exact h.not_serves hid hserves
    · exact ⟨w, hw, by simp⟩
  | some id =>
    obtain ⟨w, hw, hready⟩ := h.ready id hid
    have hlone : s.Lone (some id) := hid ▸ h.lone
    have hsweeps : SweepsUntil s (s.advance ms) id w (s.clock + ms) :=
      sweepsUntil_stride hw hlone hready hle hfuel
    obtain ⟨hstaffed, hserves⟩ := h.of_sweepsUntil hid hw (s.clock_host_advance ms).2 hsweeps
    exact ⟨hstaffed, hserves, h.exists_passes hid hw hsweeps⟩

/-! ## Whole runs -/

section Runs

variable {start : Session α β} {moves : List (Move α β)} {m : Move α β}

/-- A sweeper was started at the moment `origin`, with this interval and while the cache was open,
and none was started afterwards. -/
def StartedLast (start : Session α β) (moves : List (Move α β)) (origin interval : Nat) : Prop :=
  ∃ earlier later, moves = earlier ++ .step (.startSweeper interval) :: later ∧ 0 < interval ∧
    (start.moveAll earlier).cache.closed = false ∧ (start.moveAll earlier).clock = origin ∧
    ∀ other, Move.step (.startSweeper other) ∉ later

/-- The cache is open still. -/
def IsCurrent (start : Session α β) (moves : List (Move α β)) (origin interval : Nat) : Prop :=
  StartedLast start moves origin interval ∧ (start.moveAll moves).cache.closed = false

/-- The host is prompt for all the sweepers that these moves may start. -/
def PromptFor (host : Host) (moves : List (Move α β)) : Prop :=
  ∀ interval, 0 < interval → .step (.startSweeper interval) ∈ moves → host.Prompt interval

section Prompt

omit [Ord α] [Std.TransOrd α]

variable {host : Host} {later : List (Move α β)}

theorem PromptFor.left (h : PromptFor host (moves ++ later)) : PromptFor host moves :=
  fun interval hpos hmem => h interval hpos (List.mem_append_left later hmem)

theorem PromptFor.right (h : PromptFor host (moves ++ later)) : PromptFor host later :=
  fun interval hpos hmem => h interval hpos (List.mem_append_right moves hmem)

end Prompt

theorem moveAll_append_singleton (start : Session α β) (moves : List (Move α β)) (m : Move α β) :
    start.moveAll (moves ++ [m]) = (start.moveAll moves).move m := by
  simp [moveAll]

/-- A move starts a sweeper, lets time pass, or does neither. -/
theorem move_cases (s : Session α β) (m : Move α β) :
    (∃ interval, m = .step (.startSweeper interval)) ∨ (∃ ms, m = .step (.advance ms)) ∨
      Keeps s (s.move m) := by
  cases m with
  | look handle call => exact .inr (.inr (Leads.refl.look handle call).keeps)
  | enter call => exact .inr (.inr (Leads.refl.enter call).keeps)
  | conclude call outcome => exact .inr (.inr (Leads.refl.conclude call outcome).keeps)
  | step step =>
    cases step with
    | startSweeper interval => exact .inl ⟨interval, rfl⟩
    | advance ms => exact .inr (.inl ⟨ms, rfl⟩)
    | request request => exact .inr (.inr (request.leads_run .refl).keeps)
    | stampede form callers => exact .inr (.inr (Leads.refl.stampede form callers).keeps)
    | sweep => exact .inr (.inr s.keeps_sweep)
    | jump _ | statistics | isClosed | clone _ | withScope _ _ | cancel _ | isCancelled _
    | describe _ | sameCache _ _ => exact .inr (.inr ⟨rfl, rfl, .inl ⟨rfl, rfl⟩⟩)

theorem host_move (s : Session α β) (m : Move α β) : (s.move m).host = s.host := by
  rcases s.move_cases m with ⟨interval, rfl⟩ | ⟨ms, rfl⟩ | hkeeps
  · exact (s.clock_host_startSweeper interval).2
  · exact (s.clock_host_advance ms).2
  · exact hkeeps.2.1

theorem host_moveAll (s : Session α β) (moves : List (Move α β)) :
    (s.moveAll moves).host = s.host := by
  induction moves generalizing s with
  | nil => rfl
  | cons m moves ih => exact (ih (s.move m)).trans (s.host_move m)

/-- A closed cache stays closed and gets no sweeper, so nothing is asked of the host. -/
theorem Staffed.move_of_closed (h : s.Staffed) (hclosed : s.cache.closed = true) (m : Move α β) :
    (s.move m).Staffed ∧ (s.move m).cache.closed = true := by
  rcases s.move_cases m with ⟨interval, rfl⟩ | ⟨ms, rfl⟩ | hkeeps
  · have hsame : s.move (.step (.startSweeper interval)) = s := startSweeper_of_closed hclosed
    rw [hsame]
    exact ⟨h, hclosed⟩
  · obtain ⟨hstaffed, -, moments, hpasses⟩ := h.advance ms
    exact ⟨hstaffed, (congrArg Prod.fst hpasses.service_eq).trans hclosed⟩
  · refine ⟨h.keeps hkeeps, ?_⟩
    obtain ⟨-, -, ⟨hservice, -⟩ | ⟨hservice, -⟩⟩ := hkeeps
    · exact (congrArg Prod.fst hservice).trans hclosed
    · exact congrArg Prod.fst hservice

theorem Staffed.moveAll_of_closed (h : s.Staffed) (hclosed : s.cache.closed = true)
    (moves : List (Move α β)) :
    (s.moveAll moves).Staffed ∧ (s.moveAll moves).cache.closed = true := by
  induction moves generalizing s with
  | nil => exact ⟨h, hclosed⟩
  | cons m moves ih =>
    obtain ⟨hstaffed, hstill⟩ := h.move_of_closed hclosed m
    exact ih hstaffed hstill

theorem Staffed.move (h : s.Staffed) (hprompt : PromptFor s.host [m]) : (s.move m).Staffed := by
  cases hclosed : s.cache.closed with
  | true => exact (h.move_of_closed hclosed m).1
  | false =>
    rcases s.move_cases m with ⟨interval, rfl⟩ | ⟨ms, rfl⟩ | hkeeps
    · exact (h.start hclosed fun hpos => hprompt interval hpos (List.mem_singleton.mpr rfl)).1
    · exact (h.advance ms).1
    · exact h.keeps hkeeps

theorem Staffed.moveAll (h : s.Staffed) (hprompt : PromptFor s.host moves) :
    (s.moveAll moves).Staffed := by
  induction moves generalizing s with
  | nil => exact h
  | cons m moves ih =>
    rw [← List.singleton_append] at hprompt
    refine ih (h.move hprompt.left) ?_
    rw [host_move]
    exact hprompt.right

/-- A move that starts no sweeper leaves the one that serves an open cache. -/
theorem Staffed.serves_move (h : s.Staffed) (hm : ∀ i, m ≠ .step (.startSweeper i)) :
    (s.move m).Serves origin interval ↔
      s.Serves origin interval ∧ (s.move m).cache.closed = false := by
  rcases s.move_cases m with ⟨i, rfl⟩ | ⟨ms, rfl⟩ | hkeeps
  · exact absurd rfl (hm i)
  · obtain ⟨-, hserves, moments, hpasses⟩ := h.advance ms
    have hclosed : (s.advance ms).cache.closed = s.cache.closed :=
      congrArg Prod.fst hpasses.service_eq
    show (s.advance ms).Serves origin interval ↔
      s.Serves origin interval ∧ (s.advance ms).cache.closed = false
    rw [hserves, hclosed]
    exact (and_iff_left_of_imp h.open_of_serves).symm
  · exact h.serves_keeps hkeeps

theorem startedLast_append_start {i : Nat} :
    StartedLast start (moves ++ [.step (.startSweeper i)]) origin interval ↔
      interval = i ∧ 0 < i ∧ (start.moveAll moves).cache.closed = false ∧
        (start.moveAll moves).clock = origin := by
  constructor
  · rintro ⟨earlier, later, heq, hpos, hopen, horigin, hlater⟩
    rcases later.eq_nil_or_concat with rfl | ⟨later, last, rfl⟩
    · obtain ⟨rfl, hlast⟩ := List.append_inj' heq rfl
      simp only [List.cons.injEq, Move.step.injEq, Step.startSweeper.injEq, and_true] at hlast
      subst hlast
      exact ⟨rfl, hpos, hopen, horigin⟩
    · rw [List.concat_eq_append, ← List.cons_append, ← List.append_assoc] at heq
      obtain ⟨-, hlast⟩ := List.append_inj' heq rfl
      exact absurd (by simp [List.cons.inj hlast]) (hlater i)
  · rintro ⟨rfl, hpos, hopen, horigin⟩
    exact ⟨moves, [], rfl, hpos, hopen, horigin, fun _ => List.not_mem_nil⟩

theorem startedLast_append_other (hm : ∀ i, m ≠ .step (.startSweeper i)) :
    StartedLast start (moves ++ [m]) origin interval ↔ StartedLast start moves origin interval := by
  constructor
  · rintro ⟨earlier, later, heq, hpos, hopen, horigin, hlater⟩
    rcases later.eq_nil_or_concat with rfl | ⟨later, last, rfl⟩
    · obtain ⟨-, hlast⟩ := List.append_inj' heq rfl
      exact absurd (List.cons.inj hlast).1 (hm interval)
    · rw [List.concat_eq_append, ← List.cons_append, ← List.append_assoc] at heq
      obtain ⟨rfl, -⟩ := List.append_inj' heq rfl
      refine ⟨earlier, later, rfl, hpos, hopen, horigin, fun other hother => hlater other ?_⟩
      rw [List.concat_eq_append]
      exact List.mem_append_left _ hother
  · rintro ⟨earlier, later, rfl, hpos, hopen, horigin, hlater⟩
    refine ⟨earlier, later ++ [m], by simp, hpos, hopen, horigin, fun other hother => ?_⟩
    rcases List.mem_append.mp hother with hother | hother
    · exact hlater other hother
    · exact hm other (List.mem_singleton.mp hother).symm

/-- The sweeper that serves the cache is the one that was started last. -/
theorem Staffed.serves_moveAll_iff (h : start.Staffed) (hnone : start.cache.sweeper = none)
    (hprompt : PromptFor start.host moves) :
    (start.moveAll moves).Serves origin interval ↔ IsCurrent start moves origin interval := by
  induction moves using List.reverseRecOn with
  | nil =>
    refine iff_of_false (h.not_serves hnone) ?_
    rintro ⟨⟨earlier, later, heq, -⟩, -⟩
    simp at heq
  | append_singleton moves m ih =>
    have hbefore := h.moveAll hprompt.left
    have hlast : PromptFor (start.moveAll moves).host [m] := by
      rw [host_moveAll]
      exact hprompt.right
    rw [IsCurrent, moveAll_append_singleton]
    by_cases hm : ∃ i, m = .step (.startSweeper i)
    · obtain ⟨i, rfl⟩ := hm
      rw [startedLast_append_start]
      generalize start.moveAll moves = s at hbefore hlast
      show (s.startSweeper i).Serves origin interval ↔
        _ ∧ (s.startSweeper i).cache.closed = false
      cases hclosed : s.cache.closed with
      | true =>
        rw [startSweeper_of_closed hclosed]
        refine iff_of_false (hbefore.not_serves (hbefore.none_of_closed hclosed)) ?_
        rintro ⟨⟨-, -, hopen, -⟩, -⟩
        cases hopen
      | false =>
        obtain ⟨hstaffed, hserves⟩ := hbefore.start hclosed fun hpos =>
          hlast i hpos (List.mem_singleton.mpr rfl)
        constructor
        · intro hnow
          obtain ⟨hpos, horigin, rfl⟩ := (hserves origin interval).mp hnow
          exact ⟨⟨rfl, hpos, rfl, horigin.symm⟩, hstaffed.open_of_serves hnow⟩
        · rintro ⟨⟨rfl, hpos, -, rfl⟩, -⟩
          exact (hserves _ _).mpr ⟨hpos, rfl, rfl⟩
    · simp only [not_exists] at hm
      rw [hbefore.serves_move hm, ih hprompt.left, IsCurrent, startedLast_append_other hm,
        and_assoc]
      refine and_congr_right fun _ => and_iff_right_of_imp fun hopen => ?_
      rw [← Bool.not_eq_true] at hopen ⊢
      exact mt (fun hclosed => (hbefore.move_of_closed hclosed m).2) hopen

/-- One sweeper at most serves a cache: the one that was started last. It sweeps as time passes and
not otherwise, and a closed cache has none. -/
structure OneSweeper (start : Session α β) (moves : List (Move α β)) (s : Session α β) : Prop where
  unique : ∀ (m n : Nat) (v w : Sweeper), s.sweepers[m]? = some v → s.sweepers[n]? = some w →
    v.activity ≠ .aborted → w.activity ≠ .aborted → m = n
  serves_iff : ∀ origin interval,
    s.Serves origin interval ↔ IsCurrent start moves origin interval
  /-- The sweeps of any time that passes now are those of the current sweeper. -/
  advance : ∀ ms, ∃ moments, Passes s (s.advance ms) (s.clock + ms) moments
  /-- No sweeper sweeps while anything else is done. -/
  begun_eq : ∀ m : Move α β, (∀ ms, m ≠ .step (.advance ms)) → ∀ (id : Nat) (w : Sweeper),
    s.sweepers[id]? = some w → ∃ u, (s.move m).sweepers[id]? = some u ∧ u.begun = w.begun
  close : ∀ handle, (s.perform handle .close).2.cache.closed = true
  aborted_of_closed : s.cache.closed = true → ∀ (later : List (Move α β)) (id : Nat) (w : Sweeper),
    (s.moveAll later).sweepers[id]? = some w → w.activity = .aborted

omit [Std.TransOrd α] in
theorem begun_relieved (hw : s.sweepers[id]? = some w) :
    ∃ u, s.relieved[id]? = some u ∧ u.begun = w.begun := by
  unfold relieved
  cases s.cache.sweeper with
  | none => exact ⟨w, hw, rfl⟩
  | some n =>
    rw [Option.elim_some, Array.getElem?_modify, hw]
    split
    · refine ⟨w.abort, rfl, ?_⟩
      unfold Sweeper.abort
      split <;> rfl
    · exact ⟨w, rfl, rfl⟩

theorem Staffed.begun_move (h : s.Staffed) (hm : ∀ ms, m ≠ .step (.advance ms))
    (hw : s.sweepers[id]? = some w) :
    ∃ u, (s.move m).sweepers[id]? = some u ∧ u.begun = w.begun := by
  rcases s.move_cases m with ⟨i, rfl⟩ | ⟨ms, rfl⟩ | ⟨-, -, ⟨-, hsweepers⟩ | ⟨-, hsweepers⟩⟩
  · show ∃ u, (s.startSweeper i).sweepers[id]? = some u ∧ u.begun = w.begun
    cases hclosed : s.cache.closed with
    | true =>
      rw [startSweeper_of_closed hclosed]
      exact ⟨w, hw, rfl⟩
    | false =>
      obtain ⟨u, hu, hbegun⟩ := begun_relieved hw
      rcases Nat.eq_zero_or_pos i with rfl | hpos
      · obtain ⟨-, hsweepers⟩ := startSweeper_zero hclosed
        exact ⟨u, by rw [hsweepers, hu], hbegun⟩
      · obtain ⟨-, hsweepers⟩ := startSweeper_of_pos hclosed h.sweeper_ne_size hpos
        have hne : id ≠ s.relieved.size := Nat.ne_of_lt (Array.getElem?_eq_some_iff.mp hu).1
        exact ⟨u, by rw [hsweepers, Array.getElem?_push, if_neg hne, hu], hbegun⟩
  · exact absurd rfl (hm ms)
  · exact ⟨w, by rw [hsweepers, hw], rfl⟩
  · obtain ⟨u, hu, hbegun⟩ := begun_relieved hw
    exact ⟨u, by rw [hsweepers, hu], hbegun⟩

theorem closed_perform_close (s : Session α β) (handle : Nat) :
    (s.perform handle .close).2.cache.closed = true := by
  show s.cache.close.cache.closed = true
  unfold Cache.close
  split
  · assumption
  · rfl

/-- Whatever is done to a session from its beginning, in whatever order, on a host that is
prompt for the sweepers started: at most one of these is not stopped, namely the one that was
started last, while the cache was and stayed open. There are sweeps at the multiples of its
interval after its start, for as long as it is the last one, and no others. A closed cache is
swept by none, and gets none. -/
theorem oneSweeper_of_moves (capacity batch : Nat) (guarded : Bool) (wall : Instant) (host : Host)
    (moves : List (Move α β)) (hprompt : ∀ interval, 0 < interval →
      .step (.startSweeper interval) ∈ moves → host.Prompt interval) :
    OneSweeper (ofCache (.empty capacity batch) guarded wall host) moves
      ((ofCache (.empty capacity batch) guarded wall host).moveAll moves) := by
  have hstart := staffed_ofCache (α := α) (β := β) capacity batch guarded wall host
  have h := hstart.moveAll hprompt
  constructor
  · intro m n v w hv hw hfirst hsecond
    have hm := (h.not_aborted_iff hv).mp hfirst
    have hn := (h.not_aborted_iff hw).mp hsecond
    exact Option.some.inj (hm.symm.trans hn)
  · intro origin interval
    exact hstart.serves_moveAll_iff rfl hprompt
  · intro ms
    exact (h.advance ms).2.2
  · intro m hm id w hw
    exact h.begun_move hm hw
  · exact closed_perform_close _
  · intro hclosed later id w hw
    obtain ⟨hstaffed, hstill⟩ := h.moveAll_of_closed hclosed later
    refine hstaffed.lone id w hw ?_
    rw [hstaffed.none_of_closed hstill]
    exact nofun

/-- A sweeper is replaced between two of its ticks, and the new one sweeps at its own. -/
theorem oneSweeper_of_restart :
    let start : Session Nat Nat := ofCache (.empty 2 1) true (.clamp 0)
    let moves : List (Move Nat Nat) := [.step (.startSweeper 10), .step (.advance 25),
      .step (.request (.plain 0 (.set 1 (some 5) (.ofMillis 30)))), .step (.startSweeper 7)]
    let s := start.moveAll moves
    (∀ interval, 0 < interval → .step (.startSweeper interval) ∈ moves →
      Host.usual.Prompt interval) ∧
      s.sweepers.toList.map (·.activity) = [.aborted, .waiting 25] ∧
      (s.advance 20).sweepers.toList.map (·.begun) = [2, 2] ∧
      ((s.perform 0 .close).2.advance 20).sweepers.toList.map (·.activity) =
        [.aborted, .aborted] ∧
      IsCurrent start moves 25 7 ∧ OneSweeper start moves s := by
  intro start moves s
  have hprompt : ∀ interval, 0 < interval → .step (.startSweeper interval) ∈ moves →
      Host.usual.Prompt interval := by
    intro interval hpos hmem
    have hle : interval ≤ 10 := by
      simp only [moves, List.mem_cons, Move.step.injEq, Step.startSweeper.injEq, List.not_mem_nil,
        reduceCtorEq, or_false, false_or] at hmem
      omega
    exact Host.prompt_usual hpos (Nat.le_trans hle (by decide))
  have hall :=
    oneSweeper_of_moves (α := Nat) (β := Nat) 2 1 true (.clamp 0) .usual moves hprompt
  refine ⟨hprompt, by decide +kernel, by decide +kernel, by decide +kernel, ⟨?_, by decide +kernel⟩,
    hall⟩
  exact ⟨moves.dropLast, [], rfl, by decide, by decide +kernel, by decide +kernel,
    fun _ => List.not_mem_nil⟩

end Runs

end ExpiringCache.Session
