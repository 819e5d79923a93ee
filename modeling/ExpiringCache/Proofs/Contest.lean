import ExpiringCache.Proofs.Stampede

/-!
# Callers who vie to set a key

Any number of callers want to set one key, each if the key is not live then: some bring a value
with them and need one section only, others have a loader and keep the lock while it runs. Some
loaders fail, and some values may not be stored. Nobody else writes. The first of those who get
the lock with something to store sets the key; nobody else does.

1. **What a caller brings** (`Job.Vies`, `Job.offer?`), and **what the log tells** (`entrants`,
   `inserted?`).
2. **The contest** (`Contest`, `Contest.Moves`): undecided, with at most one caller in the lead, or
   decided for good.
3. **Running it** (`Contesting`): what the contest says of the cache, of the log and of every
   caller. Every step keeps it (`Contesting.step`).
4. **Every schedule** (`oneWinner_of_reaches`).
-/

namespace ExpiringCache

namespace Job

variable {α β : Type}

/-- The caller wants to set `key` if it is not live. -/
def Vies (key : α) : Job α β → Prop
  | perform (.setIfAbsent k _ _) => k = key
  | compute call _ => call.form = .setIfAbsent ∧ call.key = key
  | perform _ | sweep | startSweeper _ => False

/-- What the caller brings that may be stored, and for how long. -/
def offer? : Job α β → Option (β × Lifetime)
  | perform (.setIfAbsent _ value lifetime) =>
    (storable? value lifetime).map fun value => (value, lifetime)
  | compute call (.ok value) =>
    (storable? value call.lifetime).map fun value => (value, call.lifetime)
  | perform _ | compute _ (.error _) | sweep | startSweeper _ => none

/-- The caller brings something that may be stored. -/
def offers (job : Job α β) : Bool := job.offer?.isSome

/-- By coming to this, a caller gets the write lock, to keep it or for one section. -/
def locksAt (job : Job α β) : Progress α β → Bool
  | .checking => true
  | .finished _ =>
    match job with
    | perform op => !op.isRead
    | compute .. | sweep | startSweeper _ => false
  | .ready | .waiting | .loading | .leaving _ | .closing | .sweeping => false

/-- By coming to this, a caller has inserted what it brought. -/
def insertsAt (job : Job α β) : Progress α β → Bool
  | .leaving (.ok (.flag true)) => true
  | .finished (.ok (.flag true)) =>
    match job with
    | perform _ => true
    | compute .. | sweep | startSweeper _ => false
  | _ => false

variable {key : α} {job : Job α β}

theorem Vies.cases (h : job.Vies key) :
    (∃ value lifetime, job = .perform (.setIfAbsent key value lifetime)) ∨
      ∃ lifetime outcome, job = .compute ⟨.setIfAbsent, key, lifetime⟩ outcome := by
  cases job with
  | perform op =>
    cases op with
    | setIfAbsent k value lifetime =>
      obtain rfl : k = key := h
      exact .inl ⟨value, lifetime, rfl⟩
    | _ => exact h.elim
  | compute call outcome =>
    obtain ⟨form, k, lifetime⟩ := call
    obtain ⟨rfl, rfl⟩ := h
    exact .inr ⟨lifetime, outcome, rfl⟩
  | sweep | startSweeper => exact h.elim

/-- Who only looks on brings nothing. -/
theorem Onlooks.offers_eq (h : job.Onlooks) : job.offers = false := by
  cases job with
  | perform op =>
    cases op with
    | setIfAbsent => cases h
    | _ => rfl
  | startSweeper => rfl
  | compute | sweep => exact h.elim

theorem Onlooks.not_vies (h : job.Onlooks) : ¬ job.Vies key := by
  intro hvies
  rcases hvies.cases with ⟨value, lifetime, rfl⟩ | ⟨lifetime, outcome, rfl⟩
  · cases h
  · exact h.elim

/-- Who had a loader has inserted what it brought before it is done. -/
theorem insertsAt_finished_compute (call : Call α) (outcome : Except Fault (Option β))
    (result : Except Fault (Answer α β)) :
    (compute call outcome).insertsAt (.finished result) = false := by
  unfold insertsAt
  split
  · rename_i h
    cases h
  · rfl
  · rfl

theorem Onlooks.locksAt_finished (h : job.Onlooks) (result : Except Fault (Answer α β)) :
    job.locksAt (.finished result) = false := by
  cases job with
  | perform op =>
    have hread : op.isRead = true := h
    simp [locksAt, hread]
  | startSweeper => rfl
  | compute | sweep => exact h.elim

end Job

namespace Crowd

variable {ι α β : Type}

/-! ## What the log tells -/

/-- The callers in the order in which they got the lock. -/
def entrants (jobs : ι → Job α β) (log : List (Milestone ι α β)) : List ι :=
  (log.filter fun m => (jobs m.caller).locksAt m.progress).map (·.caller)

/-- The row that a caller inserted by coming to this. -/
def inserted? (jobs : ι → Job α β) (m : Milestone ι α β) : Option (β × Option Instant) :=
  if (jobs m.caller).insertsAt m.progress then
    (jobs m.caller).offer?.map fun offer => (offer.1, offer.2.deadline m.moment)
  else none

/-- What has been inserted is live whenever anybody comes to something. -/
def Lasts (jobs : ι → Job α β) (log : List (Milestone ι α β)) : Prop :=
  ∀ m ∈ log, ∀ row, inserted? jobs m = some row → ∀ m' ∈ log, Rows.isLive m'.moment row = true

variable {jobs : ι → Job α β} {log more : List (Milestone ι α β)} {m : Milestone ι α β}
  {row : β × Option Instant}

theorem entrants_append (jobs : ι → Job α β) (log : List (Milestone ι α β))
    (m : Milestone ι α β) :
    entrants jobs (log ++ [m]) =
      entrants jobs log ++ if (jobs m.caller).locksAt m.progress then [m.caller] else [] := by
  cases h : (jobs m.caller).locksAt m.progress <;> simp [entrants, h]

theorem inserted?_of_not_inserts (h : (jobs m.caller).insertsAt m.progress = false) :
    inserted? jobs m = none := by
  simp [inserted?, h]

theorem inserted?_of_not_offers (h : (jobs m.caller).offers = false) : inserted? jobs m = none := by
  simp only [Job.offers, Option.isSome_eq_false_iff, Option.isNone_iff_eq_none] at h
  simp [inserted?, h]

theorem inserted?_of_inserts (h : (jobs m.caller).insertsAt m.progress = true) {value : β}
    {lifetime : Lifetime} (hoffer : (jobs m.caller).offer? = some (value, lifetime)) :
    inserted? jobs m = some (value, lifetime.deadline m.moment) := by
  simp [inserted?, h, hoffer]

theorem offer?_of_inserted (h : inserted? jobs m = some row) :
    ∃ lifetime, (jobs m.caller).offer? = some (row.1, lifetime) ∧
      row.2 = lifetime.deadline m.moment := by
  unfold inserted? at h
  split at h
  · obtain ⟨⟨value, lifetime⟩, hoffer, rfl⟩ := Option.map_eq_some_iff.mp h
    exact ⟨lifetime, hoffer, rfl⟩
  · cases h

theorem offers_of_inserted (h : inserted? jobs m = some row) : (jobs m.caller).offers = true := by
  obtain ⟨lifetime, hoffer, -⟩ := offer?_of_inserted h
  rw [Job.offers, hoffer]
  rfl

theorem Lasts.of_append (h : Lasts jobs (log ++ more)) : Lasts jobs log :=
  fun m hm row hrow m' hm' =>
    h m (List.mem_append_left _ hm) row hrow m' (List.mem_append_left _ hm')

/-- What is stored for good lasts. -/
theorem lasts_of_forever (h : ∀ i value lifetime, (jobs i).offer? = some (value, lifetime) →
    lifetime = .forever) : Lasts jobs log := by
  intro m _ row hrow m' _
  obtain ⟨lifetime, hoffer, hdeadline⟩ := offer?_of_inserted hrow
  rw [h m.caller row.1 lifetime hoffer, Lifetime.deadline_forever] at hdeadline
  rw [Rows.isLive, hdeadline]
  rfl

end Crowd

/-! ## The contest -/

/-- How the contest stands. -/
inductive Contest (ι β : Type) where
  /-- Nobody has inserted anything; the one in the lead has the lock. -/
  | undecided (lead : Option ι)
  /-- The winner has inserted the row. -/
  | decided (winner : ι) (row : β × Option Instant)

namespace Contest

variable {ι α β : Type}

/-- The row of the key, if it was `row` at the start. -/
def row (row : Option (β × Option Instant)) : Contest ι β → Option (β × Option Instant)
  | undecided _ => row
  | decided _ inserted => some inserted

/-- The value that everybody finds, if anybody finds one. -/
def value? : Contest ι β → Option β
  | undecided _ => none
  | decided _ inserted => some inserted.1

/-- The caller is in the lead or has won. -/
def Involves (i : ι) : Contest ι β → Prop
  | undecided lead => lead = some i
  | decided w _ => w = i

def IsDecided : Contest ι β → Prop
  | undecided _ => False
  | decided _ _ => True

/-- The winner is the first entrant who brings something; before that, none but the lead has brought
anything. -/
def Ranks (offers : ι → Bool) (entrants : List ι) : Contest ι β → Prop
  | undecided lead => ∃ front, entrants = front ++ lead.toList ∧ ∀ i ∈ front, offers i = false
  | decided w _ => entrants.find? offers = some w

/-- What one caller does to the contest. -/
inductive Moves (i : ι) : Contest ι β → Contest ι β → Prop
  | stay (contest : Contest ι β) : Moves i contest contest
  | enter : Moves i (undecided none) (undecided (some i))
  | fail : Moves i (undecided (some i)) (undecided none)
  | win (row : β × Option Instant) : Moves i (undecided (some i)) (decided i row)
  /-- With its value at hand a caller wins in one section. -/
  | strike (row : β × Option Instant) : Moves i (undecided none) (decided i row)

/-- What a caller is told who does not win: that it set nothing, since somebody else has won or it
brought nothing to store; or the fault of its own loader. -/
def Consoles (contest : Contest ι β) (job : Job α β) (result : Except Fault (Answer α β)) : Prop :=
  result = .ok (.flag false) ∧ (contest.IsDecided ∨ job.offers = false) ∨
    ∃ call fault, job = .compute call (.error fault) ∧ result = .error fault

/-- What a caller is told in the end. -/
def Tells (contest : Contest ι β) (key : α) (job : Job α β) (i : ι)
    (result : Except Fault (Answer α β)) : Prop :=
  contest.Involves i ∧ contest.IsDecided ∧ result = .ok (.flag true) ∨
    ¬ contest.Involves i ∧ (job.Vies key → contest.Consoles job result)

/-- How a caller fares. -/
def Fares (contest : Contest ι β) (key : α) (job : Job α β) (i : ι) : Progress α β → Prop
  | .ready => ¬ contest.Involves i
  | .waiting => ¬ contest.Involves i ∧ job.Vies key
  | .checking => (contest = undecided (some i) ∨ contest.IsDecided ∧ ¬ contest.Involves i) ∧
      job.Vies key
  | .loading => contest = undecided (some i) ∧ job.Vies key
  | .leaving result => (∃ call outcome, job = .compute call outcome) ∧
      contest.Tells key job i result
  | .finished result => contest.Tells key job i result
  | .closing | .sweeping => False

variable {i j : ι} {contest contest' : Contest ι β} {offers : ι → Bool} {entrants : List ι}

/-- A caller concerns nobody but itself. -/
theorem Moves.apart (h : Moves i contest contest') (hj : j ≠ i) :
    contest' = contest ∨ ¬ contest.Involves j ∧ ¬ contest'.Involves j := by
  have hlead : ∀ lead : Option ι, lead = some i → lead ≠ some j := by
    rintro _ rfl hsame
    exact hj (Option.some.inj hsame).symm
  cases h with
  | stay => exact .inl rfl
  | enter => exact .inr ⟨nofun, hlead _ rfl⟩
  | fail => exact .inr ⟨hlead _ rfl, nofun⟩
  | win => exact .inr ⟨hlead _ rfl, Ne.symm hj⟩
  | strike => exact .inr ⟨nofun, Ne.symm hj⟩

/-- What has been decided stays so. -/
theorem Moves.isDecided (h : Moves i contest contest') (hdecided : contest.IsDecided) :
    contest'.IsDecided := by
  cases h with
  | stay => exact hdecided
  | enter | fail | win | strike => exact hdecided.elim

theorem Tells.of_moves {key : α} {job : Job α β} {result : Except Fault (Answer α β)}
    (h : contest.Tells key job j result) (hmoves : Moves i contest contest') (hj : j ≠ i) :
    contest'.Tells key job j result := by
  rcases hmoves.apart hj with rfl | ⟨hbefore, hafter⟩
  · exact h
  · rcases h with ⟨hinvolves, -⟩ | ⟨-, hconsoles⟩
    · exact absurd hinvolves hbefore
    · refine .inr ⟨hafter, fun hvies => ?_⟩
      exact (hconsoles hvies).imp_left (And.imp_right (Or.imp_left hmoves.isDecided))

theorem Fares.of_moves {key : α} {job : Job α β} {progress : Progress α β}
    (h : contest.Fares key job j progress) (hmoves : Moves i contest contest') (hj : j ≠ i) :
    contest'.Fares key job j progress := by
  rcases hmoves.apart hj with rfl | ⟨hbefore, hafter⟩
  · exact h
  · cases progress with
    | ready => exact hafter
    | waiting => exact ⟨hafter, h.2⟩
    | checking =>
      rcases h.1 with rfl | ⟨hdecided, -⟩
      · exact absurd rfl hbefore
      · exact ⟨.inr ⟨hmoves.isDecided hdecided, hafter⟩, h.2⟩
    | loading =>
      obtain ⟨rfl, -⟩ := h
      exact absurd rfl hbefore
    | leaving result => exact ⟨h.1, h.2.of_moves hmoves hj⟩
    | finished result => exact Tells.of_moves h hmoves hj
    | closing | sweeping => exact h

/-! ## Who comes first -/

theorem Ranks.enter (h : (undecided none : Contest ι β).Ranks offers entrants) (i : ι) :
    (undecided (some i) : Contest ι β).Ranks offers (entrants ++ [i]) := by
  obtain ⟨front, rfl, hfront⟩ := h
  exact ⟨front, by simp, hfront⟩

theorem Ranks.fail (h : (undecided (some i) : Contest ι β).Ranks offers entrants)
    (hi : offers i = false) : (undecided none : Contest ι β).Ranks offers entrants := by
  obtain ⟨front, rfl, hfront⟩ := h
  refine ⟨front ++ [i], by simp, ?_⟩
  exact List.forall_mem_append.mpr ⟨hfront, List.forall_mem_singleton.mpr hi⟩

theorem Ranks.win (h : (undecided (some i) : Contest ι β).Ranks offers entrants)
    (hi : offers i = true) (row : β × Option Instant) :
    (decided i row : Contest ι β).Ranks offers entrants := by
  obtain ⟨front, rfl, hfront⟩ := h
  show (front ++ [i]).find? offers = some i
  rw [Crowd.find?_append_of_none hfront]
  simp [hi]

/-- Who comes after the winner is late. -/
theorem Ranks.late {w : ι} {row : β × Option Instant}
    (h : (decided w row : Contest ι β).Ranks offers entrants) (more : List ι) :
    (decided w row : Contest ι β).Ranks offers (entrants ++ more) := by
  show (entrants ++ more).find? offers = some w
  rw [List.find?_append, show entrants.find? offers = some w from h, Option.some_or]

/-- Whoever is the first to bring something is in the lead or has won. -/
theorem Ranks.involves (h : contest.Ranks offers entrants)
    (hfind : entrants.find? offers = some i) : contest.Involves i := by
  cases contest with
  | undecided lead =>
    obtain ⟨front, rfl, hfront⟩ := h
    rw [Crowd.find?_append_of_none hfront] at hfind
    cases lead with
    | none => cases hfind
    | some j =>
      have hmem := List.mem_of_find?_eq_some hfind
      exact congrArg some (List.mem_singleton.mp hmem).symm
  | decided w row => exact Option.some.inj (h.symm.trans hfind)

end Contest

namespace Crowd

variable {ι α β : Type} [Ord α] [Std.TransOrd α]

/-! ## Running it -/

/-- What the log says of inserts: nobody made one yet, or the winner did. -/
def InsertedBy (jobs : ι → Job α β) (log : List (Milestone ι α β)) : Contest ι β → Prop
  | .undecided _ => ∀ m ∈ log, inserted? jobs m = none
  | .decided w row => ∃ m ∈ log, m.caller = w ∧ inserted? jobs m = some row

/-- The contest stands as given. -/
structure Contesting (key : α) (jobs : ι → Job α β) (row : Option (β × Option Instant))
    (contest : Contest ι β) (s : Crowd ι α β) : Prop where
  going : Going jobs s
  shows : s.cache.Shows key (contest.row row)
  ranks : contest.Ranks (fun i => (jobs i).offers) (entrants jobs s.log)
  inserted : InsertedBy jobs s.log contest
  /-- No loader was started after an insert. -/
  quiet : s.log.Pairwise fun m m' => (inserted? jobs m).isSome = true → m'.progress ≠ .loading
  fares : ∀ i, contest.Fares key (jobs i) i (s.progress i)

variable {key : α} {jobs : ι → Job α β} {row : Option (β × Option Instant)}
  {contest contest' : Contest ι β} {s t : Crowd ι α β} {i : ι} {now : Instant} {c : Cache α β}
  {holder : Option ι} {progress : Progress α β}

theorem contesting_start (hc : c.Shows key row) :
    Contesting key jobs row (.undecided none) (start c) where
  going := going_start c
  shows := hc
  ranks := ⟨[], rfl, fun _ h => by cases h⟩
  inserted _ h := by cases h
  quiet := .nil
  fares _ := nofun

omit [Ord α] [Std.TransOrd α] in
/-- What any look at the key finds: what has been inserted, if anything. -/
theorem InsertedBy.value?_eq {log : List (Milestone ι α β)} (h : InsertedBy jobs log contest)
    {m : Milestone ι α β} (hunset : Rows.value? row m.moment = none)
    (hlasts : Lasts jobs (log ++ [m])) :
    Rows.value? (contest.row row) m.moment = contest.value? := by
  cases contest with
  | undecided lead => exact hunset
  | decided w inserted =>
    obtain ⟨m₀, hm₀, -, hrow⟩ := h
    exact Rows.value?_of_live (hlasts m₀ (List.mem_append_left _ hm₀) inserted hrow m (by simp))

omit [Ord α] [Std.TransOrd α] in
/-- Nothing is inserted in coming to this. -/
theorem InsertedBy.append {log : List (Milestone ι α β)} {m : Milestone ι α β}
    (h : InsertedBy jobs log contest) (hnone : inserted? jobs m = none) :
    InsertedBy jobs (log ++ [m]) contest := by
  cases contest with
  | undecided lead =>
    intro m' hm'
    rcases List.mem_append.mp hm' with hold | hnew
    · exact h m' hold
    · rw [List.mem_singleton.mp hnew]
      exact hnone
  | decided w inserted =>
    obtain ⟨m₀, hm₀, hw, hrow⟩ := h
    exact ⟨m₀, List.mem_append_left _ hm₀, hw, hrow⟩

/-- The one in the lead is at it. -/
theorem Contesting.busy_of_lead (h : Contesting key jobs row (.undecided (some i)) s) :
    s.progress i = .checking ∨ s.progress i = .loading := by
  have hfares := h.fares i
  have htells : ∀ result,
      ¬ (Contest.undecided (some i) : Contest ι β).Tells key (jobs i) i result := by
    rintro result (⟨-, hdecided, -⟩ | ⟨hnot, -⟩)
    · exact hdecided
    · exact hnot rfl
  cases hprogress : s.progress i with
  | checking => exact .inl rfl
  | loading => exact .inr rfl
  | ready =>
    rw [hprogress] at hfares
    exact absurd rfl hfares
  | waiting =>
    rw [hprogress] at hfares
    exact absurd rfl hfares.1
  | leaving result =>
    rw [hprogress] at hfares
    exact absurd hfares.2 (htells result)
  | finished result =>
    rw [hprogress] at hfares
    exact absurd hfares (htells result)
  | closing | sweeping =>
    rw [hprogress] at hfares
    exact hfares.elim

/-- With the lock free nobody leads. -/
theorem Contesting.lead_eq_none (h : Contesting key jobs row contest s) (hfree : s.holder = none)
    {lead : Option ι} (hlead : contest = .undecided lead) : lead = none := by
  subst hlead
  cases lead with
  | none => rfl
  | some j =>
    have hholds := h.going.held.not_holds_of_free (j := j) hfree
    rcases h.busy_of_lead with hchecking | hloading
    · rw [hchecking] at hholds
      exact absurd trivial hholds
    · have hfares := h.fares j
      rw [hloading] at hfares hholds
      rcases hfares.2.cases with ⟨value, lifetime, hjob⟩ | ⟨lifetime, outcome, hjob⟩
      · have hfits := h.going.fits j
        rw [hloading, hjob] at hfits
        obtain ⟨_, _, hcompute⟩ := hfits
        cases hcompute
      · exact absurd ⟨_, _, hjob, rfl⟩ hholds

variable [DecidableEq ι]

/-- One caller proceeds, and does to the contest what it may. -/
theorem Contesting.proceed (h : Contesting key jobs row contest s)
    (hgoing : Going jobs (s.proceed i now c holder progress))
    (hmoves : contest.Moves i contest') (hshows : c.Shows key (contest'.row row))
    (hranks : contest'.Ranks (fun i => (jobs i).offers)
      (entrants jobs s.log ++ if (jobs i).locksAt progress then [i] else []))
    (hinserted : InsertedBy jobs (s.log ++ [⟨i, now, progress⟩]) contest')
    (hquiet : progress = .loading → ∀ m ∈ s.log, inserted? jobs m = none)
    (hfares : contest'.Fares key (jobs i) i progress) :
    Contesting key jobs row contest' (s.proceed i now c holder progress) where
  going := hgoing
  shows := hshows
  ranks := by
    rw [Crowd.proceed, entrants_append]
    exact hranks
  inserted := hinserted
  quiet := by
    refine List.pairwise_append.mpr ⟨h.quiet, List.pairwise_singleton .., fun m hm m' hm' => ?_⟩
    rw [List.mem_singleton.mp hm']
    intro hinsert hloading
    rw [hquiet hloading m hm] at hinsert
    cases hinsert
  fares := forall_progress_proceed (p := fun j progress => contest'.Fares key (jobs j) j progress)
    hfares fun j hj => (h.fares j).of_moves hmoves hj

/-- A step that concerns the contest in nothing. -/
theorem Contesting.aside (h : Contesting key jobs row contest s)
    (hgoing : Going jobs (s.proceed i now c holder progress))
    (hshows : c.Shows key (contest.row row)) (hlocks : (jobs i).locksAt progress = false)
    (hinserts : inserted? jobs ⟨i, now, progress⟩ = none) (hloading : progress ≠ .loading)
    (hfares : contest.Fares key (jobs i) i progress) :
    Contesting key jobs row contest (s.proceed i now c holder progress) := by
  refine h.proceed hgoing (.stay contest) hshows ?_ (h.inserted.append hinserts)
    (fun hsame => absurd hsame hloading) hfares
  rw [hlocks]
  simpa using h.ranks

/-! ## One step -/

/-- Whoever gets the lock leads, unless it is late. -/
theorem Contesting.acquire (h : Contesting key jobs row contest s)
    (hgoing : Going jobs (s.proceed i now s.cache (some i) .checking))
    (hwaiting : s.progress i = .waiting) (hfree : s.holder = none) :
    ∃ contest', Contesting key jobs row contest' (s.proceed i now s.cache (some i) .checking) := by
  have hfares := h.fares i
  rw [hwaiting] at hfares
  obtain ⟨hinvolves, hvies⟩ := hfares
  cases hcontest : contest with
  | undecided lead =>
    obtain rfl := h.lead_eq_none hfree hcontest
    subst hcontest
    exact ⟨.undecided (some i), h.proceed hgoing .enter h.shows (h.ranks.enter i)
      (h.inserted.append (inserted?_of_not_inserts rfl)) (by rintro ⟨⟩) ⟨.inl rfl, hvies⟩⟩
  | decided w inserted =>
    subst hcontest
    exact ⟨.decided w inserted, h.proceed hgoing (.stay _) h.shows (h.ranks.late [i])
      (h.inserted.append (inserted?_of_not_inserts rfl)) (by rintro ⟨⟩)
      ⟨.inr ⟨trivial, hinvolves⟩, hvies⟩⟩

variable [Std.LawfulEqOrd α] {lifetime : Lifetime} {outcome : Except Fault (Option β)}
  {value : Option β}

/-- The first look finds what has been inserted, or sends the caller to wait. -/
theorem Contesting.look (h : Contesting key jobs row contest s)
    (hjob : jobs i = .compute ⟨.setIfAbsent, key, lifetime⟩ outcome)
    (hready : s.progress i = .ready)
    (hvalue : Rows.value? (contest.row row) now = contest.value?)
    (hgoing : Going jobs (s.proceed i now
      ((Call.mk .setIfAbsent key lifetime).look s.cache now).cache holder
      (.ofLook ((Call.mk .setIfAbsent key lifetime).look s.cache now).answer))) :
    Contesting key jobs row contest (s.proceed i now
      ((Call.mk .setIfAbsent key lifetime).look s.cache now).cache holder
      (.ofLook ((Call.mk .setIfAbsent key lifetime).look s.cache now).answer)) := by
  have hfares := h.fares i
  rw [hready] at hfares
  have hshows := h.shows.look ⟨.setIfAbsent, key, lifetime⟩ now
  have hvies : (jobs i).Vies key := by
    rw [hjob]
    exact ⟨rfl, rfl⟩
  rw [h.shows.answer_look_setIfAbsent, hvalue] at hgoing ⊢
  cases contest with
  | undecided lead =>
    exact h.aside hgoing hshows rfl (inserted?_of_not_inserts rfl) (by rintro ⟨⟩) ⟨hfares, hvies⟩
  | decided w inserted =>
    refine h.aside hgoing hshows (by rw [hjob]; rfl) (inserted?_of_not_inserts rfl)
      (by rintro ⟨⟩) ?_
    exact .inr ⟨hfares, fun _ => .inl ⟨rfl, .inl trivial⟩⟩

/-- The second look finds what has been inserted, or starts the loader. -/
theorem Contesting.check (h : Contesting key jobs row contest s)
    (hjob : jobs i = .compute ⟨.setIfAbsent, key, lifetime⟩ outcome)
    (hchecking : s.progress i = .checking)
    (hvalue : Rows.value? (contest.row row) now = contest.value?)
    (hgoing : Going jobs (s.proceed i now
      ((Call.mk .setIfAbsent key lifetime).enter s.cache now).cache holder
      (.ofEnter ((Call.mk .setIfAbsent key lifetime).enter s.cache now).answer))) :
    Contesting key jobs row contest (s.proceed i now
      ((Call.mk .setIfAbsent key lifetime).enter s.cache now).cache holder
      (.ofEnter ((Call.mk .setIfAbsent key lifetime).enter s.cache now).answer)) := by
  have hfares := h.fares i
  rw [hchecking] at hfares
  have hshows := h.shows.enter ⟨.setIfAbsent, key, lifetime⟩ now
  rw [h.shows.answer_enter_setIfAbsent, hvalue] at hgoing ⊢
  obtain ⟨rfl | ⟨hdecided, hinvolves⟩, hvies⟩ := hfares
  · refine h.proceed hgoing (.stay _) hshows ?_ (h.inserted.append (inserted?_of_not_inserts rfl))
      (fun _ => h.inserted) ⟨rfl, hvies⟩
    simpa [Contest.value?, Progress.ofEnter, Job.locksAt] using h.ranks
  · cases contest with
    | undecided lead => exact hdecided.elim
    | decided w inserted =>
      refine h.aside hgoing hshows rfl (inserted?_of_not_inserts rfl) (by rintro ⟨⟩) ?_
      exact ⟨⟨_, _, hjob⟩, .inr ⟨hinvolves, fun _ => .inl ⟨rfl, .inl trivial⟩⟩⟩

/-- What follows a loader, or the value that a caller has brought: it is not to be stored and
nothing changes, or the caller is told that it set the key. -/
theorem conclude_cases (h : c.Shows key row) {job : Job α β} {lifetime : Lifetime}
    {outcome : Except Fault (Option β)}
    (hoffer : job.offer? = (Job.compute ⟨.setIfAbsent, key, lifetime⟩ outcome).offer?)
    (now : Instant) :
    let done := (Call.mk .setIfAbsent key lifetime).conclude c outcome now
    (job.offers = false ∧ done.cache = c ∧ (done.answer = .ok (.flag false) ∨
        ∃ fault, outcome = .error fault ∧ done.answer = .error fault)) ∨
      ∃ value, job.offer? = some (value, lifetime) ∧ done.answer = .ok (.flag true) ∧
        (Rows.isLive now (value, lifetime.deadline now) = true →
          done.cache.Shows key (some (value, lifetime.deadline now))) := by
  intro done
  have hanswer := Cache.answer_conclude_setIfAbsent c key lifetime outcome now
  cases outcome with
  | error fault =>
    refine .inl ⟨by rw [Job.offers, hoffer]; rfl, ?_, .inr ⟨fault, rfl, rfl⟩⟩
    exact Cache.conclude_of_unstored rfl nofun
  | ok value =>
    have hmap : job.offer? = (storable? value lifetime).map fun value => (value, lifetime) := hoffer
    cases hvalue : storable? value lifetime with
    | none =>
      refine .inl ⟨by simp [Job.offers, hmap, hvalue], ?_, .inl ?_⟩
      · refine Cache.conclude_of_unstored rfl fun value' hsame => ?_
        rwa [← Except.ok.inj hsame]
      · rw [hanswer]
        simp [Except.map, hvalue]
    | some loaded =>
      refine .inr ⟨loaded, by simp [hmap, hvalue], ?_, ?_⟩
      · rw [hanswer]
        simp [Except.map, hvalue]
      · intro hlive
        exact h.conclude rfl hvalue hlive

/-- The loader fails, or brings nothing that may be stored, or wins. -/
theorem Contesting.conclude (h : Contesting key jobs row contest s)
    (hjob : jobs i = .compute ⟨.setIfAbsent, key, lifetime⟩ outcome)
    (hloading : s.progress i = .loading)
    (hgoing : Going jobs (s.proceed i now
      ((Call.mk .setIfAbsent key lifetime).conclude s.cache outcome now).cache holder
      (.leaving ((Call.mk .setIfAbsent key lifetime).conclude s.cache outcome now).answer)))
    (hlasts : Lasts jobs (s.log ++ [⟨i, now,
      .leaving ((Call.mk .setIfAbsent key lifetime).conclude s.cache outcome now).answer⟩])) :
    ∃ contest', Contesting key jobs row contest' (s.proceed i now
      ((Call.mk .setIfAbsent key lifetime).conclude s.cache outcome now).cache holder
      (.leaving ((Call.mk .setIfAbsent key lifetime).conclude s.cache outcome now).answer)) := by
  have hfares := h.fares i
  rw [hloading] at hfares
  obtain ⟨rfl, hvies⟩ := hfares
  have hranks : ∀ contest : Contest ι β, ∀ result,
      contest.Ranks (fun i => (jobs i).offers) (entrants jobs s.log) →
        contest.Ranks (fun i => (jobs i).offers)
          (entrants jobs s.log ++ if (jobs i).locksAt (.leaving result) then [i] else []) := by
    intro contest result hranks
    simpa [Job.locksAt] using hranks
  rcases conclude_cases h.shows (congrArg Job.offer? hjob) now with
    ⟨hoffers, hcache, hanswer⟩ | ⟨value, hoffer, hanswer, hshows⟩
  · have hinserted : InsertedBy jobs s.log (.undecided none : Contest ι β) := h.inserted
    rw [hcache] at hgoing ⊢
    refine ⟨.undecided none, h.proceed hgoing .fail h.shows (hranks _ _ (h.ranks.fail hoffers))
      (hinserted.append (inserted?_of_not_offers hoffers)) (by rintro ⟨⟩)
      ⟨⟨_, _, hjob⟩, .inr ⟨nofun, ?_⟩⟩⟩
    rintro -
    rcases hanswer with hfalse | ⟨fault, rfl, hfault⟩
    · exact .inl ⟨hfalse, .inr hoffers⟩
    · exact .inr ⟨_, fault, hjob, hfault⟩
  · rw [hanswer] at hgoing hlasts ⊢
    have hrow : inserted? jobs ⟨i, now, .leaving (.ok (.flag true))⟩ =
        some (value, lifetime.deadline now) := inserted?_of_inserts rfl hoffer
    have hlive := hlasts _ (by simp) _ hrow ⟨i, now, .leaving (.ok (.flag true))⟩ (by simp)
    have hoffers : (jobs i).offers = true := offers_of_inserted hrow
    exact ⟨.decided i (value, lifetime.deadline now), h.proceed hgoing (.win _) (hshows hlive)
      (hranks _ _ (h.ranks.win hoffers _)) ⟨_, by simp, rfl, hrow⟩ (by rintro ⟨⟩)
      ⟨⟨_, _, hjob⟩, .inl ⟨rfl, trivial, rfl⟩⟩⟩

/-- Who has its value at hand gets the lock, looks, and sets the key or does not, all at once. -/
theorem Contesting.operate (h : Contesting key jobs row contest s)
    (hjob : jobs i = .perform (.setIfAbsent key value lifetime))
    (hready : s.progress i = .ready) (hfree : s.holder = none)
    (hvalue : Rows.value? (contest.row row) now = contest.value?)
    (hgoing : Going jobs (s.proceed i now
      (s.cache.perform (.setIfAbsent key value lifetime) now).cache none
      (.finished (s.cache.perform (.setIfAbsent key value lifetime) now).answer)))
    (hlasts : Lasts jobs (s.log ++ [⟨i, now,
      .finished (s.cache.perform (.setIfAbsent key value lifetime) now).answer⟩])) :
    ∃ contest', Contesting key jobs row contest' (s.proceed i now
      (s.cache.perform (.setIfAbsent key value lifetime) now).cache none
      (.finished (s.cache.perform (.setIfAbsent key value lifetime) now).answer)) := by
  have hfares := h.fares i
  rw [hready] at hfares
  have hlocks : ∀ result, (jobs i).locksAt (.finished result) = true := by
    intro result
    rw [hjob]
    rfl
  rw [h.shows.perform_setIfAbsent, hvalue] at hgoing hlasts ⊢
  cases hcontest : contest with
  | decided w inserted =>
    subst hcontest
    refine ⟨.decided w inserted, h.proceed hgoing (.stay _) h.shows.settle ?_
      (h.inserted.append (inserted?_of_not_inserts rfl)) (by rintro ⟨⟩)
      (.inr ⟨hfares, fun _ => .inl ⟨rfl, .inl trivial⟩⟩)⟩
    rw [hlocks]
    exact h.ranks.late [i]
  | undecided lead =>
    obtain rfl := h.lead_eq_none hfree hcontest
    subst hcontest
    simp only [Contest.value?, Option.isSome_none, Bool.false_eq_true, if_false] at hgoing hlasts ⊢
    have hentered := h.ranks.enter i
    have hjob' : (jobs i).offer? =
        (Job.compute ⟨.setIfAbsent, key, lifetime⟩ (.ok value)).offer? := by
      rw [hjob]
      rfl
    rcases conclude_cases h.shows.settle hjob' now with
      ⟨hoffers, hcache, hanswer⟩ | ⟨loaded, hoffer, hanswer, hshows⟩
    · rw [hcache] at hgoing ⊢
      refine ⟨.undecided none, h.proceed hgoing (.stay _) h.shows.settle ?_
        (h.inserted.append (inserted?_of_not_offers hoffers)) (by rintro ⟨⟩) (.inr ⟨hfares, ?_⟩)⟩
      · rw [hlocks]
        exact hentered.fail hoffers
      · rintro -
        rcases hanswer with hfalse | ⟨fault, hfault, -⟩
        · exact .inl ⟨hfalse, .inr hoffers⟩
        · cases hfault
    · rw [hanswer] at hgoing hlasts ⊢
      have hinserts : (jobs i).insertsAt (.finished (.ok (.flag true))) = true := by
        rw [hjob]
        rfl
      have hrow : inserted? jobs ⟨i, now, .finished (.ok (.flag true))⟩ =
          some (loaded, lifetime.deadline now) := inserted?_of_inserts hinserts hoffer
      have hlive := hlasts _ (by simp) _ hrow ⟨i, now, .finished (.ok (.flag true))⟩ (by simp)
      refine ⟨.decided i (loaded, lifetime.deadline now), h.proceed hgoing (.strike _)
        (hshows hlive) ?_ ⟨_, by simp, rfl, hrow⟩ (by rintro ⟨⟩) (.inl ⟨rfl, trivial, rfl⟩)⟩
      rw [hlocks]
      exact hentered.win (offers_of_inserted hrow) _

/-- Every step keeps the contest going. -/
theorem Contesting.step (h : Contesting key jobs row contest s)
    (hjobs : ∀ i, (jobs i).Vies key ∨ (jobs i).Onlooks) (hstep : Step jobs s t)
    (hunset : ∀ m ∈ t.log, Rows.value? row m.moment = none) (hlasts : Lasts jobs t.log) :
    ∃ contest', Contesting key jobs row contest' t := by
  have hgoing := h.going.step hstep
  have honlooks : ∀ {i job}, jobs i = job → ¬ job.Vies key → job.Onlooks :=
    fun {i _} hjob hnot => hjob ▸ (hjobs i).resolve_left (hjob ▸ hnot)
  have hvies : ∀ {i job}, jobs i = job → ¬ job.Onlooks → job.Vies key :=
    fun {i _} hjob hnot => hjob ▸ (hjobs i).resolve_right (hjob ▸ hnot)
  have hvalue : ∀ {i now progress}, ⟨i, now, progress⟩ ∈ t.log →
      t.log = s.log ++ [⟨i, now, progress⟩] → Rows.value? (contest.row row) now = contest.value? :=
    fun hm hlog => h.inserted.value?_eq (hunset _ hm) (hlog ▸ hlasts)
  have hwatch : ∀ {i}, (jobs i).Onlooks → s.progress i = .ready → ∀ result,
      contest.Fares key (jobs i) i (.finished result) := by
    intro i hlook hready result
    have hfares := h.fares i
    rw [hready] at hfares
    exact .inr ⟨hfares, fun hvies => absurd hvies hlook.not_vies⟩
  cases hstep with
  | @operate i op now hjob hop hready hfree =>
    have hfound : Rows.value? (contest.row row) now = contest.value? :=
      hvalue (List.mem_append_right _ (List.mem_singleton_self _)) rfl
    rcases hjobs i with hvies | hlook
    · rcases hvies.cases with ⟨value, lifetime, hset⟩ | ⟨lifetime, outcome, hset⟩
      · obtain rfl := Job.perform.inj (hjob.symm.trans hset)
        exact h.operate hjob hready hfree hfound hgoing hlasts
      · cases hjob.symm.trans hset
    · have hread : op.isRead = true := by
        rw [hjob] at hlook
        exact hlook
      exact ⟨contest, h.aside hgoing (h.shows.perform hread now) (hlook.locksAt_finished _)
        (inserted?_of_not_offers hlook.offers_eq) (by rintro ⟨⟩) (hwatch hlook hready _)⟩
  | @closeAgain i now hjob | @mark i now hjob | @clear i now hjob => cases honlooks hjob id
  | @look i call outcome now hjob hready hfree =>
    obtain ⟨form, k, lifetime⟩ := call
    obtain ⟨rfl, rfl⟩ := hvies hjob id
    exact ⟨contest, h.look hjob hready
      (hvalue (List.mem_append_right _ (List.mem_singleton_self _)) rfl) hgoing⟩
  | acquire now hwaiting hfree => exact h.acquire hgoing hwaiting hfree
  | @check i call outcome now hjob hchecking =>
    obtain ⟨form, k, lifetime⟩ := call
    obtain ⟨rfl, rfl⟩ := hvies hjob id
    exact ⟨contest, h.check hjob hchecking
      (hvalue (List.mem_append_right _ (List.mem_singleton_self _)) rfl) hgoing⟩
  | @concludeLocked i call outcome now hjob hlocks hloading =>
    obtain ⟨form, k, lifetime⟩ := call
    obtain ⟨rfl, rfl⟩ := hvies hjob id
    exact h.conclude hjob hloading hgoing hlasts
  | concludeUnlocked now hjob hlocks =>
    rw [(hvies hjob id).1] at hlocks
    cases hlocks
  | @release i result now hleaving =>
    have hfares := h.fares i
    rw [hleaving] at hfares
    obtain ⟨⟨call, outcome, hjob⟩, htells⟩ := hfares
    have hinserts : (jobs i).insertsAt (.finished result) = false := by
      rw [hjob]
      exact Job.insertsAt_finished_compute call outcome result
    exact ⟨contest, h.aside hgoing h.shows (by rw [hjob]; rfl)
      (inserted?_of_not_inserts hinserts) (by rintro ⟨⟩) htells⟩
  | sweepBatch order now hjob => exact (honlooks hjob id).elim
  | @startSweeper i sweeper now hjob hready =>
    have hlook : (jobs i).Onlooks := by
      rw [hjob]
      trivial
    exact ⟨contest, h.aside hgoing (h.shows.attach sweeper) (hlook.locksAt_finished _)
      (inserted?_of_not_offers hlook.offers_eq) (by rintro ⟨⟩) (hwatch hlook hready _)⟩

theorem Contesting.reaches (h : Contesting key jobs row contest s)
    (hjobs : ∀ i, (jobs i).Vies key ∨ (jobs i).Onlooks) (hreaches : Reaches jobs s t)
    (hunset : ∀ m ∈ t.log, Rows.value? row m.moment = none) (hlasts : Lasts jobs t.log) :
    ∃ contest', Contesting key jobs row contest' t := by
  induction hreaches with
  | refl => exact ⟨contest, h⟩
  | tail _ hstep ih =>
    obtain ⟨more, hlog⟩ := Reaches.exists_log_eq (.single hstep)
    obtain ⟨contest', hnext⟩ := ih
      (fun m hm => hunset m (hlog ▸ List.mem_append_left _ hm)) (Lasts.of_append (hlog ▸ hlasts))
    exact hnext.step hjobs hstep hunset hlasts

/-! ## Who changes nothing -/

/-- A step of a caller who brings nothing that may be stored leaves every entry as it is. -/
theorem Step.contents_eq (hstep : Step jobs s t) (hshows : s.cache.Shows key row)
    {m : Milestone ι α β} (hlog : t.log = s.log ++ [m]) (hvies : (jobs m.caller).Vies key)
    (hoffers : (jobs m.caller).offers = false) :
    t.cache.store.contents = s.cache.store.contents := by
  have hcaller : ∀ {i now c holder progress}, (s.proceed i now c holder progress).log =
      s.log ++ [m] → m.caller = i := by
    intro i now c holder progress heq
    rw [← List.cons.inj (List.append_cancel_left heq) |>.1]
  have hsettle : s.cache.settle.store.contents = s.cache.store.contents := Cache.contents_settled
  have hunstored : ∀ {lifetime outcome now}, jobs m.caller =
      .compute ⟨.setIfAbsent, key, lifetime⟩ outcome →
      ((Call.mk .setIfAbsent key lifetime).conclude s.cache outcome now).cache = s.cache := by
    intro lifetime outcome now hjob
    rcases conclude_cases hshows (congrArg Job.offer? hjob) now with
      ⟨-, hcache, -⟩ | ⟨value, hoffer, -⟩
    · exact hcache
    · rw [Job.offers, hoffer] at hoffers
      cases hoffers
  cases hstep with
  | @operate i op now hjob hop hready hfree =>
    obtain rfl := hcaller hlog
    rcases hvies.cases with ⟨value, lifetime, hset⟩ | ⟨lifetime, outcome, hset⟩
    · obtain rfl := Job.perform.inj (hjob.symm.trans hset)
      simp only [Crowd.proceed, hshows.perform_setIfAbsent]
      split
      · exact hsettle
      · have hoffer : (jobs m.caller).offer? =
            (Job.compute ⟨.setIfAbsent, key, lifetime⟩ (.ok value)).offer? := by
          rw [hjob]
          rfl
        rcases conclude_cases hshows.settle hoffer now with ⟨-, hcache, -⟩ | ⟨loaded, hsome, -⟩
        · rw [hcache]
          exact hsettle
        · rw [Job.offers, hsome] at hoffers
          cases hoffers
    · cases hjob.symm.trans hset
  | @look i call outcome now hjob =>
    obtain rfl := hcaller hlog
    rw [hjob] at hvies
    obtain ⟨form, k, lifetime⟩ := call
    obtain ⟨rfl, rfl⟩ := hvies
    rfl
  | @check i call outcome now hjob hchecking =>
    obtain rfl := hcaller hlog
    rw [hjob] at hvies
    obtain ⟨form, k, lifetime⟩ := call
    obtain ⟨rfl, rfl⟩ := hvies
    simp only [Crowd.proceed, Call.enter, Cache.writing, hshows.isOpen, Bool.false_eq_true,
      if_false]
    split <;> exact hsettle
  | @concludeLocked i call outcome now hjob | @concludeUnlocked i call outcome now hjob =>
    obtain rfl := hcaller hlog
    have hjob' := hjob
    rw [hjob] at hvies
    obtain ⟨form, k, lifetime⟩ := call
    obtain ⟨rfl, rfl⟩ := hvies
    exact congrArg (fun c => c.store.contents) (hunstored hjob')
  | acquire | release => rfl
  | closeAgain now hjob | mark now hjob | clear now hjob | sweepBatch order now hjob
  | startSweeper now hjob =>
    obtain rfl := hcaller hlog
    rw [hjob] at hvies
    exact hvies.elim

/-! ## Every schedule -/

/-- Of those who want to set the key, exactly one does: the first to get the lock with something to
store. -/
structure OneWinner (key : α) (jobs : ι → Job α β) (s : Crowd ι α β) : Prop where
  /-- Nobody else is told that it set the key. -/
  told_iff : ∀ i result, (jobs i).Vies key → s.progress i = .finished result →
    (result = .ok (.flag true) ↔
      (entrants jobs s.log).find? (fun i => (jobs i).offers) = some i)
  others : ∀ i result, (jobs i).Vies key → s.progress i = .finished result →
    result ≠ .ok (.flag true) → result = .ok (.flag false) ∨
      ∃ call fault, jobs i = .compute call (.error fault) ∧ result = .error fault
  /-- As soon as all are done, and one brought something to store, there is a winner. -/
  one_winner : (∃ i, (jobs i).Vies key ∧ (jobs i).offers = true) →
    (∀ i, (jobs i).Vies key → ∃ result, s.progress i = .finished result) →
      ∃! i, (jobs i).Vies key ∧ s.progress i = .finished (.ok (.flag true))
  /-- With nobody at it any more, the key has what the winner brought. -/
  value_eq : (∀ i, s.progress i ≠ .checking ∧ s.progress i ≠ .loading) → ∀ w,
    (entrants jobs s.log).find? (fun i => (jobs i).offers) = some w →
      (s.cache.store.entries[key]?).map (·.value) = (jobs w).offer?.map (·.1)
  /-- No loader is started after an insert. -/
  no_late_loader : s.log.Pairwise fun m m' =>
    (inserted? jobs m).isSome = true → m'.progress ≠ .loading
  /-- The next step, if it is of a caller who brings nothing to store, changes no entry. -/
  unchanged : ∀ t m, Step jobs s t → t.log = s.log ++ [m] → (jobs m.caller).Vies key →
    (jobs m.caller).offers = false → t.cache.store.contents = s.cache.store.contents

omit [DecidableEq ι] [Std.LawfulEqOrd α] in
/-- Who is done has won, or was told something else. -/
theorem Contesting.finished_cases (h : Contesting key jobs row contest s)
    {result : Except Fault (Answer α β)} (hvies : (jobs i).Vies key)
    (hfinished : s.progress i = .finished result) :
    (contest.Involves i ∧ contest.IsDecided ∧ result = .ok (.flag true)) ∨
      ¬ contest.Involves i ∧ contest.Consoles (jobs i) result := by
  have hfares := h.fares i
  rw [hfinished] at hfares
  exact hfares.imp_right (And.imp_right fun hconsoles => hconsoles hvies)

omit [Ord α] [Std.TransOrd α] [DecidableEq ι] [Std.LawfulEqOrd α] in
theorem consoles_ne {job : Job α β} {result : Except Fault (Answer α β)}
    (h : contest.Consoles job result) : result ≠ .ok (.flag true) := by
  rcases h with ⟨rfl, -⟩ | ⟨call, fault, -, rfl⟩ <;> nofun

omit [DecidableEq ι] [Std.LawfulEqOrd α] in
/-- The one who is told that it set the key is the first entrant who brought something. -/
theorem Contesting.told_iff (h : Contesting key jobs row contest s)
    {result : Except Fault (Answer α β)} (hvies : (jobs i).Vies key)
    (hfinished : s.progress i = .finished result) :
    result = .ok (.flag true) ↔
      (entrants jobs s.log).find? (fun i => (jobs i).offers) = some i := by
  rcases h.finished_cases hvies hfinished with ⟨hinvolves, hdecided, rfl⟩ | ⟨hnot, hconsoles⟩
  · refine ⟨fun _ => ?_, fun _ => rfl⟩
    cases contest with
    | undecided lead => exact hdecided.elim
    | decided w inserted =>
      obtain rfl : w = i := hinvolves
      exact h.ranks
  · constructor
    · intro htrue
      exact absurd htrue (consoles_ne hconsoles)
    · intro hfind
      exact absurd (h.ranks.involves hfind) hnot

omit [DecidableEq ι] [Std.LawfulEqOrd α] in
/-- Who brought something and is done has seen the contest decided. -/
theorem Contesting.isDecided_of_finished (h : Contesting key jobs row contest s)
    {result : Except Fault (Answer α β)} (hvies : (jobs i).Vies key)
    (hoffers : (jobs i).offers = true) (hfinished : s.progress i = .finished result) :
    contest.IsDecided := by
  rcases h.finished_cases hvies hfinished with ⟨-, hdecided, -⟩ | ⟨-, ⟨-, hwhy⟩ | hfault⟩
  · exact hdecided
  · refine hwhy.resolve_right fun hnone => ?_
    rw [hoffers] at hnone
    cases hnone
  · obtain ⟨call, fault, hjob, -⟩ := hfault
    rw [hjob] at hoffers
    cases hoffers

omit [DecidableEq ι] [Std.LawfulEqOrd α] in
theorem Contesting.existsUnique_winner (h : Contesting key jobs row contest s)
    (hjobs : ∀ i, (jobs i).Vies key ∨ (jobs i).Onlooks)
    (hsome : ∃ i, (jobs i).Vies key ∧ (jobs i).offers = true)
    (hdone : ∀ i, (jobs i).Vies key → ∃ result, s.progress i = .finished result) :
    ∃! i, (jobs i).Vies key ∧ s.progress i = .finished (.ok (.flag true)) := by
  obtain ⟨i, hvies, hoffers⟩ := hsome
  have hdecided : contest.IsDecided := by
    obtain ⟨result, hfinished⟩ := hdone i hvies
    exact h.isDecided_of_finished hvies hoffers hfinished
  cases contest with
  | undecided lead => exact hdecided.elim
  | decided w inserted =>
    obtain ⟨m, -, rfl, hrow⟩ := h.inserted
    have hw : (jobs m.caller).Vies key := by
      refine (hjobs m.caller).resolve_right fun hlook => ?_
      have hoffers := offers_of_inserted hrow
      rw [hlook.offers_eq] at hoffers
      cases hoffers
    obtain ⟨result, hfinished⟩ := hdone m.caller hw
    have hresult := (h.told_iff hw hfinished).mpr h.ranks
    refine ⟨m.caller, ⟨hw, by rw [hfinished, hresult]⟩, ?_⟩
    rintro j ⟨hj, htrue⟩
    have hfind := (h.told_iff hj htrue).mp rfl
    exact Option.some.inj (hfind.symm.trans h.ranks)

omit [DecidableEq ι] in
theorem Contesting.stored_of_find (h : Contesting key jobs row contest s)
    (hnobody : ∀ i, s.progress i ≠ .checking ∧ s.progress i ≠ .loading) {w : ι}
    (hfind : (entrants jobs s.log).find? (fun i => (jobs i).offers) = some w) :
    (s.cache.store.entries[key]?).map (·.value) = (jobs w).offer?.map (·.1) := by
  have hinvolves := h.ranks.involves hfind
  cases contest with
  | undecided lead =>
    obtain rfl : lead = some w := hinvolves
    rcases h.busy_of_lead with hchecking | hloading
    · exact absurd hchecking (hnobody w).1
    · exact absurd hloading (hnobody w).2
  | decided w' inserted =>
    obtain rfl : w' = w := hinvolves
    obtain ⟨m, -, rfl, hrow⟩ := h.inserted
    obtain ⟨lifetime, hoffer, -⟩ := offer?_of_inserted hrow
    have hstored := h.shows.row_eq
    rw [Store.getElem?_contents, Contest.row, Option.map_eq_some_iff] at hstored
    obtain ⟨e, he, rfl⟩ := hstored
    rw [he, hoffer]
    rfl

theorem Contesting.oneWinner (h : Contesting key jobs row contest s)
    (hjobs : ∀ i, (jobs i).Vies key ∨ (jobs i).Onlooks) : OneWinner key jobs s := by
  constructor
  · intro i result hvies hfinished
    exact h.told_iff hvies hfinished
  · intro i result hvies hfinished hne
    rcases h.finished_cases hvies hfinished with ⟨-, -, htrue⟩ | ⟨-, ⟨hfalse, -⟩ | hfault⟩
    · exact absurd htrue hne
    · exact .inl hfalse
    · exact .inr hfault
  · exact h.existsUnique_winner hjobs
  · intro hnobody w hfind
    exact h.stored_of_find hnobody hfind
  · exact h.quiet
  · intro t m hstep hlog hvies hoffers
    exact hstep.contents_eq h.shows hlog hvies hoffers

/-- Take an open cache that some run has led to, and a key that is not live then. Let any number
of callers want to set it, some with a value and some with a loader, and let others only read
meanwhile or start another sweeper. Let the steps of all follow each other in any order. If the
clock does not go back behind the start, and what is stored does not expire on the way, then
exactly one of them sets the key. Nobody is stuck: while one of them is not done, one of them
can go on, and each is done after five steps at most. -/
theorem oneWinner_of_reaches (capacity batch : Nat) (sweeper : Option Nat)
    (past : List (Section α β × Instant)) {key : α} {jobs : ι → Job α β} {s : Crowd ι α β}
    {began : Instant} :
    let c : Cache α β := { Cache.empty capacity batch with sweeper }.enactAll past
    c.closed = false → (∀ i, (jobs i).Vies key ∨ (jobs i).Onlooks) →
      c.store.live? key began = none → Reaches jobs (start c) s →
      (∀ m ∈ s.log, began ≤ m.moment) → Lasts jobs s.log →
      OneWinner key jobs s ∧
        (∀ i, s.log.countP (fun m => decide (m.caller = i)) ≤ 5) ∧
        ∀ i, (∀ result, s.progress i ≠ .finished result) → ∀ now, ∃ j c holder progress,
          Step jobs s (s.proceed j now c holder progress) := by
  intro c hopen hjobs hdead hreaches hclock hlasts
  have hempty : { (Cache.empty capacity batch : Cache α β) with sweeper }.Consistent :=
    ⟨Store.consistent_empty capacity, fun _ => rfl⟩
  have hshows : c.Shows key c.store.contents[key]? := ⟨hempty.enactAll past, hopen, rfl⟩
  have hunset : ∀ m ∈ s.log, Rows.value? c.store.contents[key]? m.moment = none := by
    intro m hm
    rw [← hshows.value_eq, Store.live?_eq_none_of_le (hclock m hm) hdead]
    rfl
  obtain ⟨contest, hcontest⟩ := (contesting_start hshows).reaches hjobs hreaches hunset hlasts
  have hsweep : ∀ i, jobs i ≠ .sweep := by
    intro i hsweep
    have hi := hjobs i
    rw [hsweep] at hi
    exact hi.elim id id
  refine ⟨hcontest.oneWinner hjobs, fun i => ?_, fun i hi now => hcontest.going.exists_step now hi⟩
  exact Nat.le_trans (Nat.le_add_right _ _) (hreaches.countP_add_left_le (hsweep i))

/-- The first loader fails, one caller brings nothing, and what the next loader brings may not be
stored. The winner has a loader. A caller who brings its value comes too late, and so does one who
waited for the lock. Until then the store keeps an entry of the key that has expired. -/
theorem oneWinner_of_mixed_callers :
    let fault : Fault := .loader ⟨"refused", []⟩
    let jobs : Nat → Job Nat Nat
      | 0 => .compute ⟨.setIfAbsent, 1, .forever⟩ (.error fault)
      | 1 => .perform (.setIfAbsent 1 none .forever)
      | 2 => .compute ⟨.setIfAbsent, 1, .ofMillis (-1)⟩ (.ok (some 10))
      | 3 => .compute ⟨.setIfAbsent, 1, .forever⟩ (.ok (some 20))
      | 4 => .compute ⟨.setIfAbsent, 1, .forever⟩ (.ok (some 30))
      | 5 => .perform (.setIfAbsent 1 (some 40) .forever)
      | 6 => .startSweeper (some 1)
      | _ => .perform (.get 1)
    let past : List (Section Nat Nat × Instant) :=
      [(.perform (.set 1 (some 5) (.ofMillis 3)), .clamp 0)]
    ∃ s : Crowd Nat Nat Nat,
      Reaches jobs (start ({ Cache.empty 1 1 with sweeper := some 0 }.enactAll past)) s ∧
      OneWinner 1 jobs s ∧ entrants jobs s.log = [0, 1, 2, 3, 5, 4] ∧
      s.progress 0 = .finished (.error fault) ∧ s.progress 3 = .finished (.ok (.flag true)) ∧
      ∀ i ∈ [1, 2, 4, 5], s.progress i = .finished (.ok (.flag false)) := by
  intro fault jobs past
  have hstart : Reaches jobs
      (start ({ Cache.empty 1 1 with sweeper := some 0 }.enactAll past)) _ := .refl
  have hs := hstart
    |>.step (.look (i := 0) (.clamp 5) rfl (by decide +kernel) rfl)
    |>.step (.look (i := 2) (.clamp 5) rfl (by decide +kernel) rfl)
    |>.step (.acquire (i := 0) (.clamp 6) (by decide +kernel) rfl)
    |>.step (.check (i := 0) (.clamp 6) rfl (by decide +kernel))
    |>.step (.concludeLocked (i := 0) (.clamp 7) rfl rfl (by decide +kernel))
    |>.step (.release (i := 0) (.clamp 7) rfl)
    |>.step (.operate (i := 1) (.clamp 7) rfl nofun rfl rfl)
    |>.step (.look (i := 3) (.clamp 7) rfl (by decide +kernel) rfl)
    |>.step (.acquire (i := 2) (.clamp 8) (by decide +kernel) rfl)
    |>.step (.check (i := 2) (.clamp 8) rfl (by decide +kernel))
    |>.step (.concludeLocked (i := 2) (.clamp 9) rfl rfl (by decide +kernel))
    |>.step (.release (i := 2) (.clamp 9) rfl)
    |>.step (.look (i := 4) (.clamp 9) rfl (by decide +kernel) rfl)
    |>.step (.acquire (i := 3) (.clamp 9) (by decide +kernel) rfl)
    |>.step (.check (i := 3) (.clamp 9) rfl (by decide +kernel))
    |>.step (.startSweeper (i := 6) (.clamp 10) rfl rfl)
    |>.step (.concludeLocked (i := 3) (.clamp 11) rfl rfl (by decide +kernel))
    |>.step (.release (i := 3) (.clamp 11) rfl)
    |>.step (.operate (i := 5) (.clamp 12) rfl nofun rfl rfl)
    |>.step (.acquire (i := 4) (.clamp 12) (by decide +kernel) rfl)
    |>.step (.check (i := 4) (.clamp 12) rfl (by decide +kernel))
    |>.step (.release (i := 4) (.clamp 12)
      (show _ = Progress.leaving (.ok (.flag false)) by decide +kernel))
    |>.step (.operate (i := 7) (.clamp 13) rfl nofun rfl rfl)
  have hjobs : ∀ i, (jobs i).Vies 1 ∨ (jobs i).Onlooks
    | 0 | 2 | 3 | 4 => .inl ⟨rfl, rfl⟩
    | 1 | 5 => .inl rfl
    | 6 => .inr trivial
    | _ + 7 => .inr rfl
  have hdead : ({ (Cache.empty 1 1 : Cache Nat Nat) with sweeper := some 0 }.enactAll
      past).store.live? 1 (.clamp 5) = none := by decide +kernel
  have hforever : ∀ i value lifetime, (jobs i).offer? = some (value, lifetime) →
      lifetime = .forever
    | 3, _, _, rfl | 4, _, _, rfl | 5, _, _, rfl => rfl
    | 6, _, _, h | _ + 7, _, _, h => nomatch h
  exact ⟨_, hs, (oneWinner_of_reaches 1 1 (some 0) past rfl hjobs hdead hs (by decide +kernel)
    (lasts_of_forever hforever)).1, by decide +kernel⟩

end Crowd

end ExpiringCache
