import ExpiringCache.Proofs.OneKey

/-!
# Callers who load the same key

Any number of callers ask for one key, each with a loader that runs under the write lock. Nobody
else writes. They get the lock one after the other, and look again before they load: so the loaders
run one at a time, until one of them has stored something, and then no more.

1. **What the log tells** (`acquired`, `loaders`, `throughFirst`).
2. **Contenders and onlookers** (`Job.Contends`, `Job.Onlooks`).
3. **What does not expire** (`HasStored`, `Lasting`).
4. **The race** (`Race`, `Race.Moves`): for the lock, and to be the first who stores something.
5. **Running it** (`Running`): what the race says of the cache, of the log and of every caller.
   Every step keeps it (`Running.step`).
6. **Every schedule** (`singleFile_of_reaches`).
-/

namespace ExpiringCache

namespace Progress

variable {α β : Type}

def isChecking : Progress α β → Bool
  | checking => true
  | ready | waiting | loading | leaving _ | closing | sweeping | finished _ => false

def isLoading : Progress α β → Bool
  | loading => true
  | ready | waiting | checking | leaving _ | closing | sweeping | finished _ => false

end Progress

namespace Job

variable {α β : Type}

/-- The caller asks for the key, and its loader is to run under the lock. -/
def Contends (key : α) : Job α β → Prop
  | compute call _ => call.form = .getOrSetLocked ∧ call.key = key
  | perform _ | sweep | startSweeper _ => False

/-- The caller writes nothing. -/
def Onlooks : Job α β → Prop
  | perform op => op.isRead = true
  | startSweeper _ => True
  | compute .. | sweep => False

/-- What the loader of the caller brings that may be stored. -/
def stored? : Job α β → Option β
  | compute call (.ok value) => storable? value call.lifetime
  | compute _ (.error _) | perform _ | sweep | startSweeper _ => none

/-- The loader of the caller brings something that may be stored. -/
def stores (job : Job α β) : Bool := job.stored?.isSome

/-- What the caller is told if its loader runs. -/
def own : Job α β → Except Fault (Answer α β)
  | compute call outcome => outcome.map fun value => .value (storable? value call.lifetime)
  | perform _ | sweep | startSweeper _ => .ok .done

theorem Contends.exists_call {key : α} {job : Job α β} (h : job.Contends key) :
    ∃ lifetime outcome, job = .compute ⟨.getOrSetLocked, key, lifetime⟩ outcome := by
  cases job with
  | compute call outcome =>
    obtain ⟨form, k, lifetime⟩ := call
    obtain ⟨rfl, rfl⟩ := h
    exact ⟨lifetime, outcome, rfl⟩
  | perform | sweep | startSweeper => cases h

end Job

namespace Crowd

variable {ι α β : Type} [Ord α]

/-! ## What the log tells -/

/-- The callers who came to such a point, in the order in which they did. -/
def callersAt (stage : Progress α β → Bool) (log : List (Milestone ι α β)) : List ι :=
  (log.filter fun m => stage m.progress).map (·.caller)

/-- The callers who got the lock to look again. -/
def acquired (log : List (Milestone ι α β)) : List ι := callersAt Progress.isChecking log

/-- The callers whose loader was started. -/
def loaders (log : List (Milestone ι α β)) : List ι := callersAt Progress.isLoading log

/-- A list up to the first member of a kind. -/
def throughFirst (p : ι → Bool) : List ι → List ι
  | [] => []
  | i :: rest => i :: if p i then [] else throughFirst p rest

theorem throughFirst_append_of_none {p : ι → Bool} {front : List ι} (h : ∀ i ∈ front, p i = false)
    (rest : List ι) : throughFirst p (front ++ rest) = front ++ throughFirst p rest := by
  induction front with
  | nil => rfl
  | cons i front ih =>
    rw [List.forall_mem_cons] at h
    simp [throughFirst, h.1, ih h.2]

theorem find?_append_of_none {p : ι → Bool} {front : List ι} (h : ∀ i ∈ front, p i = false)
    (rest : List ι) : (front ++ rest).find? p = rest.find? p := by
  rw [List.find?_append, List.find?_eq_none.mpr fun i hi => by simp [h i hi], Option.none_or]

section Log

variable [DecidableEq ι] {s : Crowd ι α β} {i : ι} {now : Instant} {c : Cache α β}
  {holder : Option ι} {progress : Progress α β}

theorem callersAt_proceed (stage : Progress α β → Bool) :
    callersAt stage (s.proceed i now c holder progress).log =
      callersAt stage s.log ++ if stage progress then [i] else [] := by
  cases hstage : stage progress <;> simp [callersAt, proceed, hstage]

end Log

/-! ## What does not expire -/

/-- The loader of `w` has ended, and its value was stored as `row`. -/
inductive HasStored (jobs : ι → Job α β) :
    List (Milestone ι α β) → ι → β × Option Instant → Prop
  | conclude {log : List (Milestone ι α β)} {w : ι} {call : Call α}
    {outcome : Except Fault (Option β)} {value : β} (now : Instant)
    (result : Except Fault (Answer α β)) (hload : w ∈ loaders log)
    (hjob : jobs w = .compute call outcome) (hvalue : (jobs w).stored? = some value) :
    HasStored jobs (log ++ [⟨w, now, .leaving result⟩]) w (value, call.lifetime.deadline now)
  | later {log : List (Milestone ι α β)} {w : ι} {row : β × Option Instant}
    (m : Milestone ι α β) (h : HasStored jobs log w row) : HasStored jobs (log ++ [m]) w row

/-- Whatever has been stored so far is live at every moment of the log since. -/
def Lasting (jobs : ι → Job α β) (log : List (Milestone ι α β)) : Prop :=
  ∀ earlier m, earlier ++ [m] <+: log → ∀ w row, HasStored jobs (earlier ++ [m]) w row →
    Rows.isLive m.moment row = true

variable {jobs : ι → Job α β} {log more : List (Milestone ι α β)}

omit [Ord α] in
theorem HasStored.stored?_eq {w : ι} {row : β × Option Instant} (h : HasStored jobs log w row) :
    (jobs w).stored? = some row.1 := by
  induction h with
  | conclude now result hload hjob hvalue => exact hvalue
  | later m h ih => exact ih

omit [Ord α] in
theorem Lasting.of_append (h : Lasting jobs (log ++ more)) : Lasting jobs log :=
  fun earlier m hlog => h earlier m (hlog.trans (List.prefix_append _ _))

omit [Ord α] in
theorem Lasting.last {m : Milestone ι α β} (h : Lasting jobs (log ++ [m])) {w : ι}
    {row : β × Option Instant} (hstored : HasStored jobs (log ++ [m]) w row) :
    Rows.isLive m.moment row = true := h log m List.prefix_rfl w row hstored

omit [Ord α] in
/-- What is stored for good lasts. -/
theorem lasting_of_forever (h : ∀ w call outcome, jobs w = .compute call outcome →
    (jobs w).stored? = none ∨ call.lifetime = .forever) : Lasting jobs log := by
  intro earlier m _ w row hstored
  have hrow : row.2 = none := by
    generalize earlier ++ [m] = log at hstored
    induction hstored with
    | conclude now result hload hjob hvalue =>
      rcases h _ _ _ hjob with hnone | hforever
      · rw [hnone] at hvalue
        cases hvalue
      · rw [hforever, Lifetime.deadline_forever]
    | later m h ih => exact ih
  rw [Rows.isLive, hrow]
  rfl

end Crowd

/-! ## The race -/

/-- How the race stands. Those who have loaded something before, but nothing that could be stored,
have no part in it any more. -/
inductive Race (ι β : Type) where
  /-- Nobody has the lock, and nobody has stored anything. -/
  | idle
  | checking (i : ι)
  | loading (i : ι)
  /-- The winner has stored the row. The rest got the lock after it. -/
  | won (winner : ι) (row : β × Option Instant) (rest : List ι)

namespace Race

variable {ι β : Type}

/-- Those who got the lock. -/
def acquired : Race ι β → List ι
  | idle => []
  | checking i | loading i => [i]
  | won w _ rest => w :: rest

/-- Those whose loader was started. -/
def loaders : Race ι β → List ι
  | idle | checking _ => []
  | loading i => [i]
  | won w _ _ => [w]

/-- The row of the key, if it was `row` at the start. -/
def row (row : Option (β × Option Instant)) : Race ι β → Option (β × Option Instant)
  | idle | checking _ | loading _ => row
  | won _ stored _ => some stored

/-- The stored value. -/
def value? : Race ι β → Option β
  | idle | checking _ | loading _ => none
  | won _ stored _ => some stored.1

/-- This holds of the winner and the stored row, if there are any. -/
def IfWon (p : ι → β × Option Instant → Prop) : Race ι β → Prop
  | idle | checking _ | loading _ => True
  | won w stored _ => p w stored

/-- Nobody has stored anything yet, and this caller has the lock. -/
def Leads (i : ι) (race : Race ι β) : Prop := race = checking i ∨ race = loading i

/-- What one caller does to the race. -/
inductive Moves (i : ι) : Race ι β → Race ι β → Prop
  | enter : Moves i idle (checking i)
  | load : Moves i (checking i) (loading i)
  | fail : Moves i (loading i) idle
  | win (row : β × Option Instant) : Moves i (loading i) (won i row [])
  | join (w : ι) (row : β × Option Instant) (rest : List ι) :
    Moves i (won w row rest) (won w row (rest ++ [i]))

variable {i j : ι} {race race' : Race ι β}

theorem IfWon.imp {p q : ι → β × Option Instant → Prop} (h : race.IfWon p)
    (hpq : ∀ w stored, p w stored → q w stored) : race.IfWon q := by
  cases race with
  | idle | checking _ | loading _ => trivial
  | won w stored rest => exact hpq w stored h

theorem not_leads_of_value {v : β} (h : race.value? = some v) : ¬ race.Leads i := by
  rintro (rfl | rfl) <;> cases h

theorem Moves.not_leads (h : Moves i race race') (hj : j ≠ i) :
    ¬ race.Leads j ∧ ¬ race'.Leads j := by
  constructor
  · rintro (rfl | rfl) <;> cases h <;> exact hj rfl
  · rintro (rfl | rfl) <;> cases h <;> exact hj rfl

/-- Who has stored something has done so for good. -/
theorem Moves.value?_eq (h : Moves i race race') {v : β} (hv : race.value? = some v) :
    race'.value? = some v := by
  cases h with
  | join => exact hv
  | enter | load | fail | win => cases hv

/-- How a caller fares, whose loader was `loaded` or not. -/
def Fares {α : Type} (race : Race ι β) (key : α) (job : Job α β) (i : ι) (loaded : Prop) :
    Progress α β → Prop
  | .ready => ¬ race.Leads i ∧ ¬ loaded
  | .waiting => ¬ race.Leads i ∧ ¬ loaded ∧ job.Contends key
  | .checking => (race = checking i ∨ ∃ v, race.value? = some v) ∧ ¬ loaded ∧ job.Contends key
  | .loading => race = loading i ∧ loaded ∧ job.Contends key
  | .leaving result | .finished result =>
    ¬ race.Leads i ∧ (loaded → result = job.own) ∧ (¬ loaded → job.Contends key →
      ∃ v, race.value? = some v ∧ result = .ok (.value (some v)))
  | .closing | .sweeping => False

/-- Who only looks on may finish with anything. -/
theorem Fares.of_not_contends {α : Type} {key : α} {job : Job α β} {loaded : Prop}
    (h : race.Fares key job i loaded .ready) (hjob : ¬ job.Contends key)
    (result : Except Fault (Answer α β)) : race.Fares key job i loaded (.finished result) :=
  ⟨h.1, fun hloaded => absurd hloaded h.2, fun _ hcontends => absurd hcontends hjob⟩

/-- What one caller does concerns no other, except that something may have been stored. -/
theorem Fares.of_moves {α : Type} {key : α} {job : Job α β} {loaded : Prop}
    {progress : Progress α β} (h : race.Fares key job j loaded progress)
    (hmoves : Moves i race race') (hj : j ≠ i) : race'.Fares key job j loaded progress := by
  obtain ⟨hbefore, hafter⟩ := hmoves.not_leads hj
  cases progress with
  | ready => exact ⟨hafter, h.2⟩
  | waiting => exact ⟨hafter, h.2⟩
  | checking =>
    refine ⟨.inr ?_, h.2⟩
    obtain ⟨v, hv⟩ := h.1.resolve_left fun hchecking => hbefore (.inl hchecking)
    exact ⟨v, hmoves.value?_eq hv⟩
  | loading => exact absurd (.inr h.1) hbefore
  | leaving result | finished result =>
    refine ⟨hafter, h.2.1, fun hloaded hcontends => ?_⟩
    obtain ⟨v, hv, hresult⟩ := h.2.2 hloaded hcontends
    exact ⟨v, hmoves.value?_eq hv, hresult⟩
  | closing | sweeping => exact h

end Race

namespace Crowd

variable {ι α β : Type} [Ord α] [Std.TransOrd α]

/-! ## Running it -/

/-- The race stands as given, after `front` have loaded nothing that could be stored. -/
structure Running (key : α) (jobs : ι → Job α β) (row : Option (β × Option Instant))
    (front : List ι) (race : Race ι β) (s : Crowd ι α β) : Prop where
  going : Going jobs s
  shows : s.cache.Shows key (race.row row)
  acquired_eq : acquired s.log = front ++ race.acquired
  loaders_eq : loaders s.log = front ++ race.loaders
  unstored : ∀ i ∈ front, (jobs i).stored? = none
  stored : race.IfWon (HasStored jobs s.log)
  fares : ∀ i, race.Fares key (jobs i) i (i ∈ loaders s.log) (s.progress i)

variable {key : α} {jobs : ι → Job α β} {row : Option (β × Option Instant)} {front : List ι}
  {race race' : Race ι β} {s t : Crowd ι α β} {i : ι} {now : Instant} {c : Cache α β}
  {holder : Option ι} {progress : Progress α β}

theorem running_start (hc : c.Shows key row) : Running key jobs row [] .idle (start c) where
  going := going_start c
  shows := hc
  acquired_eq := rfl
  loaders_eq := rfl
  unstored _ h := by cases h
  stored := trivial
  fares i := by
    refine ⟨?_, fun h => by cases h⟩
    rintro (h | h) <;> cases h

/-- Who leads is about to look again, or loads. -/
theorem Running.lead (h : Running key jobs row front race s) (hi : race.Leads i) :
    race = .checking i ∧ s.progress i = .checking ∨
      race = .loading i ∧ s.progress i = .loading := by
  have hfares := h.fares i
  cases hprogress : s.progress i with
  | ready | waiting | leaving _ | finished _ =>
    rw [hprogress] at hfares
    exact absurd hi hfares.1
  | checking =>
    rw [hprogress] at hfares
    exact .inl ⟨hfares.1.resolve_right fun ⟨_, hv⟩ => Race.not_leads_of_value hv hi, rfl⟩
  | loading =>
    rw [hprogress] at hfares
    exact .inr ⟨hfares.1, rfl⟩
  | closing | sweeping =>
    rw [hprogress] at hfares
    exact hfares.elim

/-- With the lock free nobody leads. -/
theorem Running.idle_or_won (h : Running key jobs row front race s) (hfree : s.holder = none) :
    race = .idle ∨ ∃ w stored rest, race = .won w stored rest := by
  have hleads : ∀ i, ¬ race.Leads i := fun i hi => by
    have hfares := h.fares i
    have hholds := h.going.held.not_holds_of_free (j := i) hfree
    rcases h.lead hi with ⟨-, hprogress⟩ | ⟨-, hprogress⟩ <;> rw [hprogress] at hfares hholds
    · exact hholds trivial
    · obtain ⟨lifetime, outcome, hjob⟩ := hfares.2.2.exists_call
      exact hholds ⟨_, _, hjob, rfl⟩
  cases race with
  | idle => exact .inl rfl
  | checking i => exact absurd (.inl rfl) (hleads i)
  | loading i => exact absurd (.inr rfl) (hleads i)
  | won w stored rest => exact .inr ⟨w, stored, rest, rfl⟩

/-- What any look at the key finds: what has been stored, if anything. -/
theorem Running.value?_eq (h : Running key jobs row front race s) {m : Milestone ι α β}
    (hunset : Rows.value? row m.moment = none) (hlasting : Lasting jobs (s.log ++ [m])) :
    Rows.value? (race.row row) m.moment = race.value? := by
  cases race with
  | idle | checking _ | loading _ => exact hunset
  | won w stored rest =>
    exact Rows.value?_of_live (hlasting.last (HasStored.later m h.stored))

variable [DecidableEq ι]

/-- A step after which the race stands as before. -/
theorem Running.aside (h : Running key jobs row front race s)
    (hgoing : Going jobs (s.proceed i now c holder progress))
    (hshows : c.Shows key (race.row row)) (hchecking : progress.isChecking = false)
    (hloading : progress.isLoading = false)
    (hfares : race.Fares key (jobs i) i (i ∈ loaders s.log) progress) :
    Running key jobs row front race (s.proceed i now c holder progress) := by
  have hacquired : acquired (s.proceed i now c holder progress).log = acquired s.log := by
    simp [acquired, callersAt_proceed, hchecking]
  have hloaders : loaders (s.proceed i now c holder progress).log = loaders s.log := by
    simp [loaders, callersAt_proceed, hloading]
  refine ⟨hgoing, hshows, hacquired.trans h.acquired_eq, hloaders.trans h.loaders_eq, h.unstored,
    h.stored.imp fun _ _ => .later _, ?_⟩
  rw [hloaders]
  exact forall_progress_proceed (p := fun j progress =>
    race.Fares key (jobs j) j (j ∈ loaders s.log) progress) hfares fun j _ => h.fares j

/-- A step by which a caller moves the race. -/
theorem Running.moves (h : Running key jobs row front race s)
    (hgoing : Going jobs (s.proceed i now c holder progress)) (hmoves : Race.Moves i race race')
    (hshows : c.Shows key (race'.row row)) {front' : List ι}
    (hacquired : (front ++ race.acquired) ++ (if progress.isChecking then [i] else []) =
      front' ++ race'.acquired)
    (hloaders : (front ++ race.loaders) ++ (if progress.isLoading then [i] else []) =
      front' ++ race'.loaders)
    (hunstored : ∀ j ∈ front', (jobs j).stored? = none)
    (hstored : race'.IfWon (HasStored jobs (s.log ++ [⟨i, now, progress⟩])))
    (hfares : race'.Fares key (jobs i) i (i ∈ front' ++ race'.loaders) progress) :
    Running key jobs row front' race' (s.proceed i now c holder progress) := by
  have hloaders' : loaders (s.proceed i now c holder progress).log = front' ++ race'.loaders := by
    rw [← hloaders, ← h.loaders_eq]
    exact callersAt_proceed _
  have hacquired' :
      acquired (s.proceed i now c holder progress).log = front' ++ race'.acquired := by
    rw [← hacquired, ← h.acquired_eq]
    exact callersAt_proceed _
  refine ⟨hgoing, hshows, hacquired', hloaders', hunstored, hstored, ?_⟩
  refine forall_progress_proceed (p := fun j progress' =>
    race'.Fares key (jobs j) j (j ∈ loaders (s.proceed i now c holder progress).log) progress') ?_
    fun j hj => ?_
  · rwa [hloaders']
  · -- nobody else has been added to the loaders
    have hsame : (j ∈ loaders (s.proceed i now c holder progress).log) = (j ∈ loaders s.log) := by
      rw [loaders, loaders, callersAt_proceed]
      split <;> simp [hj]
    rw [hsame]
    exact (h.fares j).of_moves hmoves hj

/-! ## One step -/

/-- Whoever gets the lock leads, unless somebody has won. -/
theorem Running.acquire (h : Running key jobs row front race s)
    (hgoing : Going jobs (s.proceed i now s.cache (some i) .checking))
    (hwaiting : s.progress i = .waiting) (hfree : s.holder = none) :
    ∃ race', Running key jobs row front race' (s.proceed i now s.cache (some i) .checking) := by
  have hfares := h.fares i
  rw [hwaiting, h.loaders_eq] at hfares
  obtain ⟨-, hloaded, hcontends⟩ := hfares
  rcases h.idle_or_won hfree with rfl | ⟨w, stored, rest, rfl⟩
  · exact ⟨.checking i, h.moves hgoing .enter h.shows (by simp [Race.acquired, Progress.isChecking])
      (by simp [Race.loaders, Progress.isLoading]) h.unstored trivial
      ⟨.inl rfl, hloaded, hcontends⟩⟩
  · exact ⟨.won w stored (rest ++ [i]), h.moves hgoing (.join w stored rest) h.shows
      (by simp [Race.acquired, Progress.isChecking]) (by simp [Race.loaders, Progress.isLoading])
      h.unstored (h.stored.imp fun _ _ => .later _)
      ⟨.inr ⟨stored.1, rfl⟩, hloaded, hcontends⟩⟩

variable [Std.LawfulEqOrd α] {lifetime : Lifetime} {outcome : Except Fault (Option β)}

/-- The first look finds what has been stored, or sends the caller to wait. -/
theorem Running.look (h : Running key jobs row front race s)
    (hcontends : (jobs i).Contends key) (hready : s.progress i = .ready)
    (hvalue : Rows.value? (race.row row) now = race.value?)
    (hgoing : Going jobs (s.proceed i now
      ((Call.mk .getOrSetLocked key lifetime).look s.cache now).cache holder
      (.ofLook ((Call.mk .getOrSetLocked key lifetime).look s.cache now).answer))) :
    Running key jobs row front race (s.proceed i now
      ((Call.mk .getOrSetLocked key lifetime).look s.cache now).cache holder
      (.ofLook ((Call.mk .getOrSetLocked key lifetime).look s.cache now).answer)) := by
  have hfares := h.fares i
  rw [hready] at hfares
  have hshows := h.shows.look ⟨.getOrSetLocked, key, lifetime⟩ now
  rw [h.shows.answer_look, hvalue] at hgoing ⊢
  cases hv : race.value? with
  | none =>
    rw [hv] at hgoing
    exact h.aside hgoing hshows rfl rfl ⟨hfares.1, hfares.2, hcontends⟩
  | some v =>
    rw [hv] at hgoing
    exact h.aside hgoing hshows rfl rfl
      ⟨hfares.1, fun hloaded => absurd hloaded hfares.2, fun _ _ => ⟨v, hv, rfl⟩⟩

/-- The second look finds what has been stored, or starts the loader. -/
theorem Running.check (h : Running key jobs row front race s)
    (hchecking : s.progress i = .checking)
    (hvalue : Rows.value? (race.row row) now = race.value?)
    (hgoing : Going jobs (s.proceed i now
      ((Call.mk .getOrSetLocked key lifetime).enter s.cache now).cache holder
      (.ofEnter ((Call.mk .getOrSetLocked key lifetime).enter s.cache now).answer))) :
    ∃ race', Running key jobs row front race' (s.proceed i now
      ((Call.mk .getOrSetLocked key lifetime).enter s.cache now).cache holder
      (.ofEnter ((Call.mk .getOrSetLocked key lifetime).enter s.cache now).answer)) := by
  have hfares := h.fares i
  rw [hchecking] at hfares
  have hshows := h.shows.enter ⟨.getOrSetLocked, key, lifetime⟩ now
  rw [h.shows.answer_enter, hvalue] at hgoing ⊢
  rcases hfares with ⟨rfl | ⟨v, hv⟩, hloaded, hcontends⟩
  · exact ⟨.loading i, h.moves hgoing .load hshows
      (by simp [Race.acquired, Race.value?, Progress.ofEnter, Progress.isChecking])
      (by simp [Race.loaders, Race.value?, Progress.ofEnter, Progress.isLoading]) h.unstored trivial
      ⟨rfl, by simp [Race.loaders], hcontends⟩⟩
  · rw [hv] at hgoing ⊢
    exact ⟨race, h.aside hgoing hshows rfl rfl ⟨Race.not_leads_of_value hv,
      fun hl => absurd hl hloaded, fun _ _ => ⟨v, hv, rfl⟩⟩⟩

/-- The loader fails, or brings nothing that may be stored, or wins. -/
theorem Running.conclude (h : Running key jobs row front race s)
    (hjob : jobs i = .compute ⟨.getOrSetLocked, key, lifetime⟩ outcome)
    (hloading : s.progress i = .loading)
    (hgoing : Going jobs (s.proceed i now
      ((Call.mk .getOrSetLocked key lifetime).conclude s.cache outcome now).cache holder
      (.leaving ((Call.mk .getOrSetLocked key lifetime).conclude s.cache outcome now).answer)))
    (hlasting : Lasting jobs (s.log ++ [⟨i, now,
      .leaving ((Call.mk .getOrSetLocked key lifetime).conclude s.cache outcome now).answer⟩])) :
    ∃ front' race', Running key jobs row front' race' (s.proceed i now
      ((Call.mk .getOrSetLocked key lifetime).conclude s.cache outcome now).cache holder
      (.leaving ((Call.mk .getOrSetLocked key lifetime).conclude s.cache outcome now).answer)) := by
  have hfares := h.fares i
  rw [hloading] at hfares
  obtain ⟨rfl, hloaded, hcontends⟩ := hfares
  have hown : ((Call.mk .getOrSetLocked key lifetime).conclude s.cache outcome now).answer =
      (jobs i).own := by
    rw [Cache.answer_conclude, hjob]
    rfl
  rw [hown] at hgoing hlasting ⊢
  cases hvalue : (jobs i).stored? with
  | none =>
    have hunstored : ∀ value, outcome = .ok value → storable? value lifetime = none := by
      rintro value rfl
      rwa [hjob] at hvalue
    rw [Cache.conclude_of_unstored rfl hunstored] at hgoing ⊢
    refine ⟨front ++ [i], .idle, h.moves hgoing .fail h.shows
      (by simp [Race.acquired, Progress.isChecking])
      (by simp [Race.loaders, Progress.isLoading]) ?_ trivial ⟨?_, ?_, ?_⟩⟩
    · exact List.forall_mem_append.mpr ⟨h.unstored, List.forall_mem_singleton.mpr hvalue⟩
    · rintro (hlead | hlead) <;> cases hlead
    · exact fun _ => rfl
    · intro hmem
      simp at hmem
  | some v =>
    -- the value is live at the moment when it is stored
    have hstored : HasStored jobs (s.log ++ [⟨i, now, .leaving (jobs i).own⟩]) i
        (v, lifetime.deadline now) := .conclude now _ hloaded hjob hvalue
    have hlive := hlasting.last hstored
    rw [hjob] at hvalue
    cases outcome with
    | error fault => cases hvalue
    | ok value =>
      refine ⟨front, .won i (v, lifetime.deadline now) [], h.moves hgoing (.win _)
        (h.shows.conclude rfl hvalue hlive) (by simp [Race.acquired, Progress.isChecking])
        (by simp [Race.loaders, Progress.isLoading]) h.unstored hstored ⟨?_, fun _ => rfl, ?_⟩⟩
      · rintro (hlead | hlead) <;> cases hlead
      · intro hmem
        simp [Race.loaders] at hmem

/-- Every step keeps the race running. -/
theorem Running.step (h : Running key jobs row front race s)
    (hjobs : ∀ i, (jobs i).Contends key ∨ (jobs i).Onlooks) (hstep : Step jobs s t)
    (hunset : ∀ m ∈ t.log, Rows.value? row m.moment = none) (hlasting : Lasting jobs t.log) :
    ∃ front' race', Running key jobs row front' race' t := by
  have hgoing := h.going.step hstep
  have honlooks : ∀ {i job}, jobs i = job → ¬ job.Contends key → job.Onlooks :=
    fun {i _} hjob hnot => hjob ▸ (hjobs i).resolve_left (hjob ▸ hnot)
  have hcontends : ∀ {i job}, jobs i = job → ¬ job.Onlooks → job.Contends key :=
    fun {i _} hjob hnot => hjob ▸ (hjobs i).resolve_right (hjob ▸ hnot)
  have hvalue : ∀ {i now progress}, ⟨i, now, progress⟩ ∈ t.log →
      t.log = s.log ++ [⟨i, now, progress⟩] → Rows.value? (race.row row) now = race.value? :=
    fun hm hlog => h.value?_eq (hunset _ hm) (hlog ▸ hlasting)
  cases hstep with
  | @operate i op now hjob hop hready hfree =>
    have hready := hready ▸ h.fares i
    exact ⟨front, race, h.aside hgoing (h.shows.perform (honlooks hjob id) now) rfl rfl
      (hready.of_not_contends (hjob ▸ id) _)⟩
  | @closeAgain i now hjob | @mark i now hjob | @clear i now hjob => cases honlooks hjob id
  | @look i call outcome now hjob hready hfree =>
    obtain ⟨form, k, lifetime⟩ := call
    obtain ⟨rfl, rfl⟩ := hcontends hjob id
    exact ⟨front, race, h.look (hjob ▸ ⟨rfl, rfl⟩) hready
      (hvalue (List.mem_append_right _ (List.mem_singleton_self _)) rfl) hgoing⟩
  | acquire now hwaiting hfree => exact ⟨front, h.acquire hgoing hwaiting hfree⟩
  | @check i call outcome now hjob hchecking =>
    obtain ⟨form, k, lifetime⟩ := call
    obtain ⟨rfl, rfl⟩ := hcontends hjob id
    exact ⟨front, h.check hchecking
      (hvalue (List.mem_append_right _ (List.mem_singleton_self _)) rfl) hgoing⟩
  | @concludeLocked i call outcome now hjob hlocks hloading =>
    obtain ⟨form, k, lifetime⟩ := call
    obtain ⟨rfl, rfl⟩ := hcontends hjob id
    exact h.conclude hjob hloading hgoing hlasting
  | concludeUnlocked now hjob hlocks =>
    rw [(hcontends hjob id).1] at hlocks
    cases hlocks
  | @release i result now hleaving =>
    have hfares := h.fares i
    rw [hleaving] at hfares
    exact ⟨front, race, h.aside hgoing h.shows rfl rfl hfares⟩
  | sweepBatch order now hjob => exact (honlooks hjob id).elim
  | @startSweeper i sweeper now hjob hready =>
    have hready := hready ▸ h.fares i
    exact ⟨front, race, h.aside hgoing (h.shows.attach sweeper) rfl rfl
      (hready.of_not_contends (hjob ▸ id) _)⟩

theorem Running.reaches (h : Running key jobs row front race s)
    (hjobs : ∀ i, (jobs i).Contends key ∨ (jobs i).Onlooks) (hreaches : Reaches jobs s t)
    (hunset : ∀ m ∈ t.log, Rows.value? row m.moment = none) (hlasting : Lasting jobs t.log) :
    ∃ front' race', Running key jobs row front' race' t := by
  induction hreaches with
  | refl => exact ⟨front, race, h⟩
  | tail _ hstep ih =>
    obtain ⟨more, hlog⟩ := Reaches.exists_log_eq (.single hstep)
    obtain ⟨front', race', hnext⟩ := ih
      (fun m hm => hunset m (hlog ▸ List.mem_append_left _ hm))
      (Lasting.of_append (hlog ▸ hlasting))
    exact hnext.step hjobs hstep hunset hlasting

/-! ## Every schedule -/

/-- Loaders run one at a time, in the order in which their callers get the lock, and none runs after
the first whose value is stored. Those whose loaders run are told what came of it, and all others
are told the stored value. -/
structure SingleFile (key : α) (jobs : ι → Job α β) (s : Crowd ι α β) : Prop where
  one_loading : ∀ i j, s.progress i = .loading → s.progress j = .loading → i = j
  loaders_prefix :
    loaders s.log <+: throughFirst (fun i => (jobs i).stores) (acquired s.log)
  /-- Unless somebody is about to look again, all are told apart who load and who need not. -/
  loaders_eq : (∀ i, s.progress i ≠ .checking) →
    loaders s.log = throughFirst (fun i => (jobs i).stores) (acquired s.log)
  own : ∀ i result, s.progress i = .finished result → i ∈ loaders s.log → result = (jobs i).own
  others : ∀ i result, s.progress i = .finished result → (jobs i).Contends key →
    i ∉ loaders s.log → ∃ w v,
      (acquired s.log).find? (fun i => (jobs i).stores) = some w ∧
        (jobs w).stored? = some v ∧ result = .ok (.value (some v))
  /-- With nobody at it any more, the key has what the first such loader brought. -/
  value_eq : (∀ i, s.progress i ≠ .checking ∧ s.progress i ≠ .loading) → ∀ w,
    (acquired s.log).find? (fun i => (jobs i).stores) = some w →
      (s.cache.store.entries[key]?).map (·.value) = (jobs w).stored?

omit [DecidableEq ι] [Std.LawfulEqOrd α] in
theorem Running.not_stores (h : Running key jobs row front race s) :
    ∀ i ∈ front, (jobs i).stores = false := fun i hi => by
  rw [Job.stores, h.unstored i hi]
  rfl

omit [DecidableEq ι] [Std.LawfulEqOrd α] in
theorem Running.winner_stores {w : ι} {stored : β × Option Instant} {rest : List ι}
    (h : Running key jobs row front (.won w stored rest) s) :
    (jobs w).stored? = some stored.1 ∧ (jobs w).stores = true := by
  have hstored : (jobs w).stored? = some stored.1 := h.stored.stored?_eq
  exact ⟨hstored, by rw [Job.stores, hstored]; rfl⟩

omit [DecidableEq ι] [Std.LawfulEqOrd α] in
/-- The loaders, as far as the race has come. -/
theorem Running.loaders_eq_throughFirst (h : Running key jobs row front race s)
    (hchecking : ∀ i, race ≠ .checking i) :
    loaders s.log = throughFirst (fun i => (jobs i).stores) (acquired s.log) := by
  rw [h.loaders_eq, h.acquired_eq, throughFirst_append_of_none h.not_stores]
  cases race with
  | idle => rfl
  | checking i => exact absurd rfl (hchecking i)
  | loading i => simp [Race.loaders, Race.acquired, throughFirst]
  | won w stored rest => simp [Race.loaders, Race.acquired, throughFirst, h.winner_stores.2]

omit [DecidableEq ι] in
/-- The first of those who got the lock that stores something is the winner, if there is one. -/
theorem Running.find?_of_value (h : Running key jobs row front race s) {v : β}
    (hv : race.value? = some v) :
    ∃ w, (acquired s.log).find? (fun i => (jobs i).stores) = some w ∧
      (jobs w).stored? = some v ∧ (s.cache.store.entries[key]?).map (·.value) = some v := by
  cases race with
  | idle | checking _ | loading _ => cases hv
  | won w stored rest =>
    cases hv
    refine ⟨w, ?_, h.winner_stores.1, ?_⟩
    · rw [h.acquired_eq, find?_append_of_none h.not_stores]
      simp [Race.acquired, h.winner_stores.2]
    · have hrow := h.shows.row_eq
      rw [Store.getElem?_contents, Race.row, Option.map_eq_some_iff] at hrow
      obtain ⟨e, he, rfl⟩ := hrow
      rw [he]
      rfl

omit [DecidableEq ι] in
theorem Running.singleFile (h : Running key jobs row front race s) : SingleFile key jobs s := by
  have hlead : ∀ i, s.progress i = .loading → race = .loading i := fun i hi => by
    have hfares := h.fares i
    rw [hi] at hfares
    exact hfares.1
  refine ⟨fun i j hi hj => ?_, ?_, fun hchecking => ?_, fun i result hi hload => ?_,
    fun i result hi hcontends hload => ?_, fun hdone w hw => ?_⟩
  · have hsame := (hlead i hi).symm.trans (hlead j hj)
    exact Race.loading.inj hsame
  · by_cases hchecking : ∃ i, race = .checking i
    · -- the one who is about to look again has the lock, and has not loaded yet
      obtain ⟨i, rfl⟩ := hchecking
      rw [h.loaders_eq, h.acquired_eq, throughFirst_append_of_none h.not_stores]
      simp [Race.loaders]
    · rw [h.loaders_eq_throughFirst fun i hi => hchecking ⟨i, hi⟩]
  · refine h.loaders_eq_throughFirst fun i hi => ?_
    rcases h.lead (.inl hi) with ⟨-, hprogress⟩ | ⟨hloading, -⟩
    · exact hchecking i hprogress
    · rw [hi] at hloading
      cases hloading
  · have hfares := h.fares i
    rw [hi] at hfares
    exact hfares.2.1 hload
  · have hfares := h.fares i
    rw [hi] at hfares
    obtain ⟨v, hv, hresult⟩ := hfares.2.2 hload hcontends
    obtain ⟨w, hw, hstored, -⟩ := h.find?_of_value hv
    exact ⟨w, v, hw, hstored, hresult⟩
  · cases race with
    | idle =>
      rw [h.acquired_eq, find?_append_of_none h.not_stores] at hw
      cases hw
    | checking i =>
      rcases h.lead (.inl rfl) with ⟨-, hprogress⟩ | ⟨hloading, -⟩
      · exact absurd hprogress (hdone i).1
      · cases hloading
    | loading i =>
      rcases h.lead (.inr rfl) with ⟨hchecking, -⟩ | ⟨-, hprogress⟩
      · cases hchecking
      · exact absurd hprogress (hdone i).2
    | won w' stored rest =>
      obtain ⟨w'', hfound, hstored, hvalue⟩ := h.find?_of_value rfl
      obtain rfl := Option.some.inj (hw.symm.trans hfound)
      rw [hvalue, hstored]

omit [Std.LawfulEqOrd α] in
/-- Nobody gets the lock twice. -/
theorem Reaches.nodup_acquired {c : Cache α β} (h : Reaches jobs (start c) s)
    (hjobs : ∀ i, jobs i ≠ .sweep) : (acquired s.log).Nodup := by
  induction h with
  | refl => exact List.nodup_nil
  | tail hreaches hstep ih =>
    obtain ⟨i, now, c', holder, progress, rfl, hleft⟩ := hstep.left_lt
    rw [acquired, callersAt_proceed]
    cases progress with
    | checking =>
      refine List.nodup_append.mpr ⟨ih, List.nodup_singleton i, fun j hj k hk => ?_⟩
      rw [List.mem_singleton.mp hk]
      rintro rfl
      -- who has looked again once is nearer to its end than one who is yet to look again
      obtain ⟨m, hm, hcaller⟩ := List.mem_map.mp hj
      obtain ⟨hlog, hchecking⟩ := List.mem_filter.mp hm
      have hle := Reaches.left_le hreaches (hjobs j) m hlog hcaller
      have hlt := hleft (hjobs j)
      cases hprogress : m.progress <;> simp [hprogress, Progress.isChecking] at hchecking
      rw [hprogress] at hle
      exact absurd hle (Nat.not_le_of_lt hlt)
    | ready | waiting | loading | leaving _ | closing | sweeping | finished _ =>
      simpa [acquired, Progress.isChecking] using ih

/-- Take an open cache that some run has led to, a moment `began`, and a key that is not live then.
The clock may go back behind that moment, but not to where an old entry of the key is still live.
Let any number of callers ask for the key, each with its own loader and lifetime, and let others
only read meanwhile or start another sweeper. Let the steps of all follow each other in any order,
however many come between the start of a loader and its end. If what is stored does not expire on
the way, the callers go in single file, and none gets the lock twice. Nobody is stuck: while one of
them is not done, one of them can go on, and each is done after five steps at most. -/
theorem singleFile_of_reaches (capacity batch : Nat) (sweeper : Option Nat)
    (past : List (Section α β × Instant)) {key : α} {jobs : ι → Job α β} {s : Crowd ι α β}
    {began : Instant} :
    let c : Cache α β := { Cache.empty capacity batch with sweeper }.enactAll past
    c.closed = false → (∀ i, (jobs i).Contends key ∨ (jobs i).Onlooks) →
      c.store.live? key began = none → Reaches jobs (start c) s →
      (∀ m ∈ s.log, m.moment < began → c.store.live? key m.moment = none) → Lasting jobs s.log →
      SingleFile key jobs s ∧ (acquired s.log).Nodup ∧
        (∀ i, s.log.countP (fun m => decide (m.caller = i)) ≤ 5) ∧
        ∀ i, (∀ result, s.progress i ≠ .finished result) → ∀ now, ∃ j c holder progress,
          Step jobs s (s.proceed j now c holder progress) := by
  intro c hopen hjobs hdead hreaches hback hlasting
  have hempty : { (Cache.empty capacity batch : Cache α β) with sweeper }.Consistent :=
    ⟨Store.consistent_empty capacity, fun _ => rfl⟩
  have hshows : c.Shows key c.store.contents[key]? := ⟨hempty.enactAll past, hopen, rfl⟩
  have hunset : ∀ m ∈ s.log, Rows.value? c.store.contents[key]? m.moment = none := by
    intro m hm
    have hnone : c.store.live? key m.moment = none := by
      by_cases hearly : m.moment < began
      · exact hback m hm hearly
      · exact Store.live?_eq_none_of_le (Int.not_lt.mp hearly) hdead
    rw [← hshows.value_eq, hnone]
    rfl
  have hstart : Running key jobs c.store.contents[key]? [] .idle (start c) := running_start hshows
  obtain ⟨front, race, hrunning⟩ := hstart.reaches hjobs hreaches hunset hlasting
  have hsweep : ∀ i, jobs i ≠ .sweep := fun i hsweep => by
    have hi := hjobs i
    rw [hsweep] at hi
    cases hi.resolve_left id
  exact ⟨hrunning.singleFile, hreaches.nodup_acquired hsweep,
    fun i => Nat.le_trans (Nat.le_add_right _ _) (hreaches.countP_add_left_le (hsweep i)),
    fun i hi now => hrunning.going.exists_step now hi⟩

/-- The first loader fails, and what the second brings may not be stored. The third stores its value
when a sweeper has been started meanwhile. The fourth caller waited for the lock and need not load,
nor does one who comes later. Until then the store keeps an entry of the key that has expired. -/
theorem singleFile_of_failing_loaders :
    let fault : Fault := .loader ⟨"refused", []⟩
    let jobs : Nat → Job Nat Nat
      | 0 => .compute ⟨.getOrSetLocked, 1, .forever⟩ (.error fault)
      | 1 => .compute ⟨.getOrSetLocked, 1, .ofMillis (-1)⟩ (.ok (some 10))
      | 2 => .compute ⟨.getOrSetLocked, 1, .forever⟩ (.ok (some 20))
      | 3 => .compute ⟨.getOrSetLocked, 1, .forever⟩ (.ok (some 30))
      | 4 => .compute ⟨.getOrSetLocked, 1, .forever⟩ (.ok none)
      | 5 => .startSweeper (some 1)
      | _ => .perform (.get 1)
    let past : List (Section Nat Nat × Instant) :=
      [(.perform (.set 1 (some 5) (.ofMillis 3)), .clamp 0)]
    ∃ s : Crowd Nat Nat Nat,
      Reaches jobs (start ({ Cache.empty 1 1 with sweeper := some 0 }.enactAll past)) s ∧
      SingleFile 1 jobs s ∧ acquired s.log = [0, 1, 2, 3] ∧ loaders s.log = [0, 1, 2] ∧
      s.progress 0 = .finished (.error fault) ∧ s.progress 1 = .finished (.ok (.value none)) ∧
      ∀ i ∈ [2, 3, 4], s.progress i = .finished (.ok (.value (some 20))) := by
  intro fault jobs past
  have hstart : Reaches jobs
      (start ({ Cache.empty 1 1 with sweeper := some 0 }.enactAll past)) _ := .refl
  have hs := hstart
    |>.step (.look (i := 0) (.clamp 5) rfl (by decide +kernel) rfl)
    |>.step (.look (i := 1) (.clamp 5) rfl (by decide +kernel) rfl)
    |>.step (.look (i := 2) (.clamp 6) rfl (by decide +kernel) rfl)
    |>.step (.acquire (i := 0) (.clamp 6) (by decide +kernel) rfl)
    |>.step (.check (i := 0) (.clamp 6) rfl (by decide +kernel))
    |>.step (.concludeLocked (i := 0) (.clamp 7) rfl rfl (by decide +kernel))
    |>.step (.release (i := 0) (.clamp 7) rfl)
    |>.step (.look (i := 3) (.clamp 7) rfl (by decide +kernel) rfl)
    |>.step (.acquire (i := 1) (.clamp 8) (by decide +kernel) rfl)
    |>.step (.check (i := 1) (.clamp 8) rfl (by decide +kernel))
    |>.step (.concludeLocked (i := 1) (.clamp 9) rfl rfl (by decide +kernel))
    |>.step (.release (i := 1) (.clamp 9) rfl)
    |>.step (.acquire (i := 2) (.clamp 9) (by decide +kernel) rfl)
    |>.step (.check (i := 2) (.clamp 9) rfl (by decide +kernel))
    |>.step (.startSweeper (i := 5) (.clamp 10) rfl rfl)
    |>.step (.concludeLocked (i := 2) (.clamp 11) rfl rfl (by decide +kernel))
    |>.step (.release (i := 2) (.clamp 11) rfl)
    |>.step (.acquire (i := 3) (.clamp 12) (by decide +kernel) rfl)
    |>.step (.check (i := 3) (.clamp 12) rfl (by decide +kernel))
    |>.step (.release (i := 3) (.clamp 12)
      (show _ = Progress.leaving (.ok (.value (some 20))) by decide +kernel))
    |>.step (.look (i := 4) (.clamp 13) rfl (by decide +kernel) rfl)
    |>.step (.operate (i := 6) (.clamp 13) rfl nofun rfl rfl)
  have hjobs : ∀ i, (jobs i).Contends 1 ∨ (jobs i).Onlooks
    | 0 | 1 | 2 | 3 | 4 => .inl ⟨rfl, rfl⟩
    | 5 => .inr trivial
    | _ + 6 => .inr rfl
  have hlasting : ∀ w call outcome, jobs w = .compute call outcome →
      (jobs w).stored? = none ∨ call.lifetime = .forever
    | 0, _, _, _ | 1, _, _, _ | 4, _, _, _ | 5, _, _, _ | _ + 6, _, _, _ => .inl rfl
    | 2, _, _, rfl | 3, _, _, rfl => .inr rfl
  have hdead : ({ (Cache.empty 1 1 : Cache Nat Nat) with sweeper := some 0 }.enactAll
      past).store.live? 1 (.clamp 5) = none := by decide +kernel
  exact ⟨_, hs, (singleFile_of_reaches 1 1 (some 0) past rfl hjobs hdead hs (by decide +kernel)
    (lasting_of_forever hlasting)).1, by decide +kernel⟩

/-- The key is not live when the callers come. While the first loader runs, the clock goes back to
where the old entry is live, and the loader fails. Nothing has been stored, but the next caller is
told the old value and does not load. -/
theorem not_singleFile_of_clock_back :
    let jobs : Nat → Job Nat Nat
      | 0 => .compute ⟨.getOrSetLocked, 1, .forever⟩ (.error (.loader ⟨"refused", []⟩))
      | _ => .compute ⟨.getOrSetLocked, 1, .forever⟩ (.ok (some 20))
    let past : List (Section Nat Nat × Instant) :=
      [(.perform (.set 1 (some 5) (.ofMillis 3)), .clamp 0)]
    let c : Cache Nat Nat := (Cache.empty 0 1).enactAll past
    c.closed = false ∧ (∀ i, (jobs i).Contends 1) ∧ c.store.live? 1 (.clamp 5) = none ∧
      ∃ s : Crowd Nat Nat Nat, Reaches jobs (start c) s ∧
        s.log.head?.map (·.moment) = some (.clamp 5) ∧ Lasting jobs s.log ∧
        s.progress 1 = .finished (.ok (.value (some 5))) ∧ ¬ SingleFile 1 jobs s := by
  intro jobs past c
  have hstart : Reaches jobs (start c) _ := .refl
  have hs := hstart
    |>.step (.look (i := 0) (.clamp 5) rfl (by decide +kernel) rfl)
    |>.step (.acquire (i := 0) (.clamp 5) (by decide +kernel) rfl)
    |>.step (.check (i := 0) (.clamp 5) rfl (by decide +kernel))
    |>.step (.concludeLocked (i := 0) (.clamp 0) rfl rfl (by decide +kernel))
    |>.step (.release (i := 0) (.clamp 0) rfl)
    |>.step (.look (i := 1) (.clamp 0) rfl (by decide +kernel) rfl)
  have hcontends : ∀ i, (jobs i).Contends 1
    | 0 | _ + 1 => ⟨rfl, rfl⟩
  have hlasting : ∀ w call outcome, jobs w = .compute call outcome →
      (jobs w).stored? = none ∨ call.lifetime = .forever
    | 0, _, _, _ => .inl rfl
    | _ + 1, _, _, rfl => .inr rfl
  refine ⟨rfl, hcontends, by decide +kernel, _, hs, by decide +kernel, lasting_of_forever hlasting,
    by decide +kernel, fun hfile => ?_⟩
  obtain ⟨w, v, hw, -⟩ := hfile.others 1 (.ok (.value (some 5))) (by decide +kernel) (hcontends 1)
    (by decide +kernel)
  -- only the first caller got the lock, and its loader brought nothing
  cases hw

end Crowd

end ExpiringCache
