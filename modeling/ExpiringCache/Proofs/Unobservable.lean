import ExpiringCache.Proofs.Errands
import ExpiringCache.Proofs.Indistinct

/-!
# Sweeping is not observable

Two runs of the same errands, one of them with sweeps in between, tell their callers the same. What
tells them apart is only what is counted as expired and what is stored though it has expired.

1. **Stages** (`Stage`): an errand, or one batch of a sweep that goes on later.
2. **What is observed** (`Sight`, `Cache.observe`): of each errand but a sweep, what is told of it,
   what its inserts evict and what is counted after it.
3. **One errand** (`Indistinct.carry`), **one sweep** (`Indistinct.pass_sweep`): an errand looks the
   same on two indistinct caches and leaves them so, and so does a sweep of the second one alone.
4. **Runs** (`observe_eq_unswept`).
-/

namespace ExpiringCache

/-- A part of a run. A sweep that lets others come between its batches, or in which the clock moves,
is a batch at a time. -/
inductive Stage (α β : Type) where
  | errand (errand : Errand α β)
  | batch (order : Arrangement α) (now : Instant)

/-- The last reading of an errand. -/
def Errand.ends {α β : Type} : Errand α β → Instant
  | perform _ now | look _ now | sweep _ now => now
  | compute _ _ _ _ last => last
  | finish _ _ _ later => later

theorem Errand.ends_mem {α β : Type} (errand : Errand α β) : errand.ends ∈ errand.readings := by
  cases errand <;> simp [Errand.ends, Errand.readings]

namespace Stage

variable {α β : Type} {stage : Stage α β} {asked : Errand α β}

/-- What the clock shows during a stage, in order. -/
def readings : Stage α β → List Instant
  | .errand asked => asked.readings
  | .batch _ now => [now]

/-- The last reading of a stage. -/
def ends : Stage α β → Instant
  | .errand asked => asked.ends
  | .batch _ now => now

theorem ends_mem (stage : Stage α β) : stage.ends ∈ stage.readings := by
  cases stage with
  | errand asked => exact asked.ends_mem
  | batch order now => exact List.mem_singleton_self now

/-- The errand of a stage that is no sweep, nor part of one. -/
def asked? : Stage α β → Option (Errand α β)
  | .errand (.sweep _ _) | .batch _ _ => none
  | .errand asked => some asked

theorem eq_errand_of_asked (h : stage.asked? = some asked) : stage = .errand asked := by
  cases stage with
  | batch => cases h
  | errand errand =>
    cases errand with
    | sweep => cases h
    | _ =>
      cases h
      rfl

/-- A run without its sweeps. -/
def unswept (stages : List (Stage α β)) : List (Stage α β) := stages.filter (·.asked?.isSome)

end Stage

/-- What is observed of an errand. -/
structure Sight (α β : Type) where
  report : Report α β
  /-- The keys written, each with the keys that were evicted for it. -/
  evicted : List (α × List α)
  tally : Tally

namespace Cache

variable {α β : Type} [Ord α] [Std.TransOrd α]

/-- The inserts of a run, each with the keys that it evicts. -/
def evicts : Cache α β → List (Section α β × Instant) → List (α × List α)
  | _, [] => []
  | c, (sec, now) :: run =>
    c.settled.evicts (sec.effect c now).deeds ++ evicts (c.enact sec now) run

/-- What is observed of an errand; expired entries are not counted. -/
def sight (c : Cache α β) (errand : Errand α β) : Sight α β :=
  let done := c.carry errand
  ⟨done.1, c.evicts (c.sections errand), done.2.store.tally.unexpired⟩

/-- The sections of a stage. -/
def stageSections (c : Cache α β) : Stage α β → List (Section α β × Instant)
  | .errand errand => c.sections errand
  | .batch order now => [(.sweepBatch order, now)]

/-- Goes through one stage. -/
def pass (c : Cache α β) : Stage α β → Cache α β
  | .errand errand => (c.carry errand).2
  | .batch order now => (c.sweepBatch order now).cache

/-- Goes through stages one after the other. -/
def passAll (c : Cache α β) (stages : List (Stage α β)) : Cache α β := stages.foldl pass c

/-- What is observed of stages that follow each other. Nobody looks at sweeps. -/
def observe : Cache α β → List (Stage α β) → List (Sight α β)
  | _, [] => []
  | c, stage :: stages =>
    (stage.asked?.map c.sight).toList ++ observe (c.pass stage) stages

/-- The sections of stages that follow each other. -/
def itinerary : Cache α β → List (Stage α β) → List (Section α β × Instant)
  | _, [] => []
  | c, stage :: stages =>
    c.stageSections stage ++ itinerary (c.pass stage) stages

/-- A stage does what its sections do. -/
theorem pass_eq_enactAll (c : Cache α β) (stage : Stage α β) :
    c.pass stage = c.enactAll (c.stageSections stage) := by
  cases stage with
  | errand errand => exact c.carry_eq_enactAll errand
  | batch => rfl

theorem effects_itinerary_cons (c : Cache α β) (stage : Stage α β) (stages : List (Stage α β)) :
    c.effects (c.itinerary (stage :: stages)) =
      c.effects (c.stageSections stage) ++
        (c.pass stage).effects ((c.pass stage).itinerary stages) := by
  rw [itinerary, effects_append, pass_eq_enactAll]

/-- Nothing sets the caches apart but what has expired by `now`. -/
structure DifferInExpired (now : Instant) (c d : Cache α β) : Prop where
  closed_eq : c.closed = d.closed
  row_eq : ∀ k, c.store.contents.live? k now = d.store.contents.live? k now
  tally_eq : c.store.tally.unexpired = d.store.tally.unexpired

variable {past : List (Effect α β)} {now later : Instant} {c d : Cache α β}

theorem Indistinct.differInExpired (h : Indistinct past now c d) : DifferInExpired now c d where
  closed_eq := h.closed_eq
  row_eq := h.readAlike.live?_eq
  tally_eq := h.readAlike.tally_eq

theorem indistinct_empty (capacity batch batch' : Nat) (now : Instant) :
    Indistinct [] now (empty capacity batch : Cache α β) (empty capacity batch') where
  left := consistent_empty capacity batch
  right := consistent_empty capacity batch'
  closed_eq := rfl
  emptied := nofun
  readAlike := (Store.Alike.refl now (.empty capacity)).toReadAlike
  waiting := waiting_of_untouched rfl []
  alike _ := by
    rw [settled_of_untouched rfl, settled_of_untouched rfl]
    exact Store.Alike.refl now (.empty capacity)
  touches_le _ := Nat.le_refl _

/-! ## One errand -/

/-- What is told of an errand is the same for both caches, and so is what it evicts. -/
structure SeenAlike (past : List (Effect α β)) (errand : Errand α β) (c d : Cache α β) : Prop where
  report_eq : (c.carry errand).1 = (d.carry errand).1
  evicts_eq : c.evicts (c.sections errand) = d.evicts (d.sections errand)
  indistinct : Indistinct (past ++ c.effects (c.sections errand)) errand.ends
    (c.carry errand).2 (d.carry errand).2

theorem SeenAlike.sight_eq {errand : Errand α β} (h : SeenAlike past errand c d) :
    c.sight errand = d.sight errand := by
  simp only [sight, h.report_eq, h.evicts_eq, h.indistinct.differInExpired.tally_eq]

variable [Std.LawfulEqOrd α]

/-- One section, with its history written as the effects of a run. -/
theorem Indistinct.enact_single (h : Indistinct past now c d) (sec : Section α β)
    {moment : Instant} (hbatch : ∀ order, sec ≠ .sweepBatch order) (hshut : sec ≠ .shut)
    (hcalm : Calm (past ++ c.effects [(sec, moment)])) (hnow : now ≤ moment)
    (hle : moment ≤ sec.ends moment) :
    Indistinct (past ++ c.effects [(sec, moment)]) (sec.ends moment) (c.enact sec moment)
        (d.enact sec moment) ∧
      c.evicts [(sec, moment)] = d.evicts [(sec, moment)] := by
  obtain ⟨hnext, hevicts⟩ := (h.mono hnow).enact hbatch hshut hcalm hle
  exact ⟨hnext, congrArg (· ++ []) hevicts⟩

theorem Indistinct.carry_finish (h : Indistinct past now c d) (call : Call α)
    (outcome : Except Fault (Option β)) {moment later : Instant} (hnow : now ≤ moment)
    (hle : moment ≤ later)
    (hcalm : Calm (past ++ c.effects (c.sections (.finish call outcome moment later)))) :
    SeenAlike past (.finish call outcome moment later) c d := by
  have hanswer := (h.mono hnow).answer_finish call outcome later
  obtain ⟨hnext, hevicts⟩ :=
    h.enact_single (.finish call outcome later) nofun nofun hcalm hnow hle
  exact ⟨by simp only [Cache.carry, hanswer], hevicts, hnext⟩

theorem Indistinct.carry (h : Indistinct past now c d) {stage : Stage α β} {errand : Errand α β}
    (hasked : stage.asked? = some errand) (hclock : (now :: errand.readings).Pairwise (· ≤ ·))
    (hcalm : Calm (past ++ c.effects (c.sections errand))) : SeenAlike past errand c d := by
  cases errand with
  | perform op moment =>
    have hnow : now ≤ moment := List.rel_of_pairwise_cons hclock (by simp [Errand.readings])
    obtain ⟨hnext, hevicts⟩ := h.enact_single (.perform op) nofun nofun hcalm hnow
      (Instant.le_refl moment)
    exact ⟨congrArg Report.answered ((h.mono hnow).answer_perform op), hevicts, hnext⟩
  | look call moment =>
    have hnow : now ≤ moment := List.rel_of_pairwise_cons hclock (by simp [Errand.readings])
    obtain ⟨hnext, hevicts⟩ := h.enact_single (.look call) nofun nofun hcalm hnow
      (Instant.le_refl moment)
    exact ⟨congrArg Report.looked ((h.mono hnow).answer_look call), hevicts, hnext⟩
  | finish call outcome moment later =>
    simp only [Errand.readings, List.pairwise_cons] at hclock
    exact h.carry_finish call outcome (hclock.1 moment (by simp)) (hclock.2.1 later (by simp)) hcalm
  | compute call outcome first second last =>
    simp only [Errand.readings, List.pairwise_cons] at hclock
    obtain ⟨hnow, hfirst, hsecond, -⟩ := hclock
    have hanswer := (h.mono (hnow first (by simp))).answer_look call
    have hlook : Calm (past ++ c.effects [(.look call, first)]) := by
      rw [sections, effects_cons, List.append_cons] at hcalm
      exact hcalm.of_append
    obtain ⟨hnext, hevicts⟩ := h.enact_single (.look call) nofun nofun hlook
      (hnow first (by simp)) (Instant.le_refl first)
    cases hphase : (call.look c first).answer with
    | finished result =>
      -- the look ends the call for both
      have hc : c.sections (.compute call outcome first second last) = [(.look call, first)] := by
        simp [sections, hphase]
      have hd : d.sections (.compute call outcome first second last) = [(.look call, first)] := by
        simp [sections, ← hanswer, hphase]
      refine ⟨?_, ?_, ?_⟩
      · simp [carry_compute, ← hanswer, hphase]
      · rwa [hc, hd]
      · rw [carry_eq_enactAll, carry_eq_enactAll, hc, hd]
        exact hnext.mono (hfirst last (by simp))
    | waiting | loading =>
      -- the rest of the call begins where the look has left the caches
      have hc : c.sections (.compute call outcome first second last) = (.look call, first) ::
          (call.look c first).cache.sections (.finish call outcome second last) := by
        simp [sections, hphase]
      have hd : d.sections (.compute call outcome first second last) = (.look call, first) ::
          (call.look d first).cache.sections (.finish call outcome second last) := by
        simp [sections, ← hanswer, hphase]
      rw [hc, effects_cons, List.append_cons] at hcalm
      obtain ⟨hreport, hevicts', hlast⟩ := hnext.carry_finish call outcome (hfirst second (by simp))
        (hsecond last (by simp)) hcalm
      refine ⟨?_, ?_, ?_⟩
      · rw [carry_compute, carry_compute, ← hanswer, hphase]
        exact hreport
      · simp only [evicts, List.append_nil] at hevicts
        rw [hc, hd, evicts, evicts, hevicts]
        exact congrArg _ hevicts'
      · rw [carry_compute, carry_compute, ← hanswer, hphase, hc, effects_cons, List.append_cons]
        exact hlast
  | sweep orders moment =>
    cases stage with
    | errand errand => cases errand <;> cases hasked
    | batch => cases hasked

/-! ## One sweep -/

theorem Indistinct.enact_batches (h : Indistinct past now c d) {run : List (Section α β × Instant)}
    (hrun : ∀ step ∈ run, ∃ order, step = (.sweepBatch order, now)) :
    Indistinct past now c (d.enactAll run) := by
  induction run generalizing d with
  | nil => exact h
  | cons step run ih =>
    obtain ⟨order, rfl⟩ := hrun step (by simp)
    exact ih (h.enact_batch order (Instant.le_refl now)) fun s hs => hrun s (by simp [hs])

/-- A sweep of the second cache alone is not noticed. -/
theorem Indistinct.pass_sweep (h : Indistinct past now c d) {stage : Stage α β}
    (hswept : stage.asked? = none) (hnow : now ≤ stage.ends) :
    Indistinct past stage.ends c (d.pass stage) := by
  cases stage with
  | batch order moment => exact (h.mono hnow).enact_batch order (Instant.le_refl moment)
  | errand errand =>
    cases errand with
    | sweep orders moment =>
      rw [pass, carry_eq_enactAll]
      exact (h.mono hnow).enact_batches fun step => sweepBatch_of_mem_sweepSections
    | _ => cases hswept

/-! ## Runs -/

theorem exists_start {readings : List Instant} (hclock : readings.Pairwise (· ≤ ·))
    (hnow : ∀ t ∈ readings, t ≤ now) :
    ∃ start, start ≤ now ∧ (start :: readings).Pairwise (· ≤ ·) := by
  cases readings with
  | nil => exact ⟨now, Instant.le_refl now, List.pairwise_singleton _ now⟩
  | cons first rest =>
    have hrest := List.pairwise_cons.mp hclock
    refine ⟨first, hnow first (by simp), List.pairwise_cons.mpr ⟨fun t ht => ?_, hclock⟩⟩
    rcases List.mem_cons.mp ht with rfl | ht
    · exact Instant.le_refl t
    · exact hrest.1 t ht

/-- Whatever is swept from the second cache meanwhile, a run is the same for both. -/
theorem Indistinct.passAll (h : Indistinct past now c d) {stages : List (Stage α β)}
    (hclock : (now :: stages.flatMap Stage.readings).Pairwise (· ≤ ·))
    (hcalm : Calm (past ++ c.effects (c.itinerary (Stage.unswept stages)))) :
    c.observe (Stage.unswept stages) = d.observe stages ∧
      ∀ later, now ≤ later → (∀ t ∈ stages.flatMap Stage.readings, t ≤ later) →
        Indistinct (past ++ c.effects (c.itinerary (Stage.unswept stages))) later
          (c.passAll (Stage.unswept stages)) (d.passAll stages) := by
  induction stages generalizing past now c d with
  | nil =>
    refine ⟨rfl, fun later hle _ => ?_⟩
    rw [Stage.unswept, List.filter_nil, itinerary, effects_nil, List.append_nil]
    exact h.mono hle
  | cons stage stages ih =>
    rw [List.flatMap_cons] at hclock ⊢
    have hnow : now ≤ stage.ends :=
      List.rel_of_pairwise_cons hclock (List.mem_append_left _ stage.ends_mem)
    have hrest : (stage.ends :: stages.flatMap Stage.readings).Pairwise (· ≤ ·) :=
      hclock.sublist (((List.singleton_sublist.mpr stage.ends_mem).append_right _).cons now)
    have hends : ∀ later, (∀ t ∈ stage.readings ++ stages.flatMap Stage.readings, t ≤ later) →
        stage.ends ≤ later ∧ ∀ t ∈ stages.flatMap Stage.readings, t ≤ later :=
      fun later hlater => ⟨hlater _ (List.mem_append_left _ stage.ends_mem),
        fun t ht => hlater t (List.mem_append_right _ ht)⟩
    cases hasked : stage.asked? with
    | none =>
      -- a sweep, which the first cache never sees
      have hunswept : Stage.unswept (stage :: stages) = Stage.unswept stages := by
        simp [Stage.unswept, hasked]
      rw [hunswept] at hcalm ⊢
      obtain ⟨hobserve, hfinal⟩ := ih (h.pass_sweep hasked hnow) hrest hcalm
      refine ⟨?_, fun later _ hlater => hfinal later (hends later hlater).1 (hends later hlater).2⟩
      rw [hobserve, observe.eq_def d]
      simp [hasked]
    | some errand =>
      have hunswept : Stage.unswept (stage :: stages) = stage :: Stage.unswept stages := by
        simp [Stage.unswept, hasked]
      obtain rfl := Stage.eq_errand_of_asked hasked
      rw [hunswept, effects_itinerary_cons, ← List.append_assoc] at hcalm ⊢
      have hreadings : (now :: errand.readings).Pairwise (· ≤ ·) :=
        hclock.sublist ((List.sublist_append_left _ _).cons_cons now)
      have hseen := h.carry hasked hreadings hcalm.of_append
      obtain ⟨hobserve, hfinal⟩ := ih hseen.indistinct hrest hcalm
      refine ⟨?_, fun later _ hlater => hfinal later (hends later hlater).1 (hends later hlater).2⟩
      rw [observe, observe, pass, pass, hobserve]
      simp only [hasked, Option.map_some, hseen.sight_eq]

/-- Take a run of errands on a cache of any capacity, in which the clock never goes back and no more
hits lie between two write sections than touches can be kept. Sweep a second cache meanwhile,
wherever and however often, with batches of any size. Of every errand the same is observed: what its
caller is told and whether its loader runs, the keys that each insert evicts, and the hits, misses
and evictions so far. The run may end anywhere, and there the caches differ in what has expired. -/
theorem observe_eq_unswept (capacity batch batch' : Nat) {stages : List (Stage α β)}
    (hclock : (stages.flatMap Stage.readings).Pairwise (· ≤ ·))
    (hcalm : Calm ((empty capacity batch).effects
      ((empty capacity batch).itinerary (Stage.unswept stages)))) :
    let c : Cache α β := empty capacity batch
    let d : Cache α β := empty capacity batch'
    d.observe stages = c.observe (Stage.unswept stages) ∧
      ∀ now, (∀ t ∈ stages.flatMap Stage.readings, t ≤ now) →
        DifferInExpired now (c.passAll (Stage.unswept stages)) (d.passAll stages) := by
  intro c d
  have hpassAll : ∀ now, (∀ t ∈ stages.flatMap Stage.readings, t ≤ now) →
      c.observe (Stage.unswept stages) = d.observe stages ∧
        DifferInExpired now (c.passAll (Stage.unswept stages)) (d.passAll stages) := by
    intro now hnow
    -- the caches are indistinct from the first reading on
    obtain ⟨start, hle, hstart⟩ := exists_start hclock hnow
    obtain ⟨hobserve, hfinal⟩ :=
      (indistinct_empty capacity batch batch' start).passAll hstart hcalm
    exact ⟨hobserve, (hfinal now hle hnow).differInExpired⟩
  exact ⟨(hpassAll .latest fun t _ => t.le_latest).1.symm, fun now hnow => (hpassAll now hnow).2⟩

/-- The second cache deletes the first key while the first cache still stores it, has room for the
third key without a purge, and evicts the same key for the fourth. -/
theorem observe_eq_unswept_of_expired_slot :
    let stages : List (Stage Nat Nat) :=
      [.errand (.perform (.set 1 (some 10) (.ofMillis 5)) (.clamp 0)),
        .errand (.perform (.set 2 (some 20) .forever) (.clamp 1)),
        .errand (.sweep (fun _ => .asListed) (.clamp 6)),
        .errand (.perform (.set 3 (some 30) .forever) (.clamp 6)),
        .batch .asListed (.clamp 7),
        .errand (.perform (.get 2) (.clamp 7)),
        .errand (.compute ⟨.getOrSet, 4, .forever⟩ (.ok (some 40)) (.clamp 8) (.clamp 8)
          (.clamp 9)),
        .errand (.perform .keys (.clamp 9))]
    (stages.flatMap Stage.readings).Pairwise (· ≤ ·) ∧
      Calm ((empty 2 3).effects ((empty 2 3).itinerary (Stage.unswept stages))) ∧
      ((empty 2 1).observe stages).map (·.evicted) =
        [[(1, [])], [(2, [])], [(3, [])], [], [(4, [3])], []] ∧
      (empty 2 1).observe stages = (empty 2 3).observe (Stage.unswept stages) := by
  intro stages
  have hclock : (stages.flatMap Stage.readings).Pairwise (· ≤ ·) := by decide
  have hcalm : Calm ((empty 2 3).effects ((empty 2 3).itinerary (Stage.unswept stages))) :=
    calm_of_length_le (by cbv)
  refine ⟨hclock, hcalm, ?_, (observe_eq_unswept 2 3 1 hclock hcalm).1⟩
  clear hclock hcalm
  subst stages
  cbv

end Cache

end ExpiringCache
