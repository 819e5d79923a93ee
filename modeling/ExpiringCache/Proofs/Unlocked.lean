import ExpiringCache.Proofs.Closing
import ExpiringCache.Proofs.OneKey

/-!
# Loading without the lock

A caller whose loader needs no lock has the cache to itself only twice: when it looks up its key,
and when it stores what was loaded. In between anything may happen, and all of it is kept, unless
the caller has something to store: then it overrides what others did to its key, and nothing else.
What a loader does to the cache itself counts among what others do.

1. **Concluding** (`Cache.Concludes`): what becomes of an outcome, case by case.
2. **Keeping order** (`Reaches.consistent`, `Reaches.spent`): whatever callers do, the indices fit;
   and a cache that is closed is empty, once nobody is about to clear it.
3. **Paths** (`Crowd.path`): what one caller has come to, and when.
4. **The course of a call** (`Crowd.Course`): every step of anybody keeps it (`Course.step`).
5. **Coming to an end** (`Course.exists_finished`): whoever has the lock lets it go in the end, so
   no call is left hanging.
-/

namespace ExpiringCache

variable {ι α β : Type} [Ord α] [Std.TransOrd α]

namespace Cache

variable [Std.LawfulEqOrd α] {c : Cache α β} {key : α} {lifetime : Lifetime} {now : Instant}

/-! ## Concluding -/

/-- What a caller is told whose loader has come to an end in the cache `c`, and the cache that it
leaves behind: but for the last case that is `c`, with all that was done to it. -/
inductive Concludes (key : α) (lifetime : Lifetime) (now : Instant) (c : Cache α β) :
    Except Fault (Option β) → Except Fault (Answer α β) → Cache α β → Prop
  | failed (fault : Fault) : Concludes key lifetime now c (.error fault) (.error fault) c
  | unstorable {value : Option β} (h : value = none ∨ lifetime.isStorable = false) :
    Concludes key lifetime now c (.ok value) (.ok (.value none)) c
  | refused {loaded : β} (hstorable : lifetime.isStorable = true) (hclosed : c.closed = true) :
    Concludes key lifetime now c (.ok (some loaded)) (.ok (.value none)) c
  /-- The key has what was loaded, whatever it had. -/
  | stored {loaded : β} {c' : Cache α β} (hstorable : lifetime.isStorable = true)
    (hopen : c.closed = false)
    (hcache : c' =
      { c.settle with store := (c.settle.store.insert key loaded lifetime now).2 })
    (hlive : now < .latest → c'.store.JustWritten key loaded lifetime now) :
    Concludes key lifetime now c (.ok (some loaded)) (.ok (.value (some loaded))) c'

theorem Consistent.concludes (h : c.Consistent) (key : α) (lifetime : Lifetime)
    (outcome : Except Fault (Option β)) (now : Instant) :
    c.Concludes key lifetime now outcome
      ((Call.mk .getOrSet key lifetime).conclude c outcome now).answer
      ((Call.mk .getOrSet key lifetime).conclude c outcome now).cache := by
  cases outcome with
  | error fault => exact .failed fault
  | ok value =>
    cases hvalue : storable? value lifetime with
    | none =>
      simp only [Call.conclude, Call.storeUnlocked, hvalue]
      refine .unstorable ?_
      cases hstorable : lifetime.isStorable with
      | false => exact .inr rfl
      | true => exact .inl (by simpa [storable?, hstorable] using hvalue)
    | some loaded =>
      obtain ⟨hstorable, rfl⟩ := storable?_eq_some_iff.mp hvalue
      cases hclosed : c.closed with
      | true =>
        rw [(conclude_of_closed hclosed _ rfl _ now).1, (conclude_of_closed hclosed _ rfl _ now).2]
        exact .refused hstorable hclosed
      | false =>
        simp only [Call.conclude, Call.storeUnlocked, hvalue, writing, hclosed, Store.putNew,
          Bool.false_eq_true, if_false]
        exact .stored hstorable hclosed rfl fun hnow =>
          h.settle.store.justWritten_insert (.inr hnow)

omit [Std.LawfulEqOrd α] in
theorem look_of_live {e : Entry β} (h : c.store.live? key now = some e) (lifetime : Lifetime) :
    ((Call.mk .getOrSet key lifetime).look c now).answer =
      .finished (.ok (.value (some e.value))) := by
  simp [Call.look, Turn.map, answer_lookup, h]

omit [Std.LawfulEqOrd α] in
theorem look_of_dead (h : c.store.live? key now = none) (lifetime : Lifetime) :
    (Call.mk .getOrSet key lifetime).look c now =
      ⟨c.tallied c.store.tally.miss, .loading, []⟩ := by
  simp [Call.look, Turn.map, lookup, tallied, Tally.lookup, h]

end Cache

namespace Crowd

open Cache

variable [DecidableEq ι] {jobs : ι → Job α β} {s t : Crowd ι α β} {i j : ι} {now : Instant}
  {c c' : Cache α β} {holder : Option ι} {progress : Progress α β} {key : α} {lifetime : Lifetime}
  {outcome : Except Fault (Option β)}

/-! ## Keeping order -/

/-- Who closes a cache marks it. -/
theorem Step.exists_mark (hstep : Step jobs s t) (hopen : s.cache.closed = false)
    (hclosed : t.cache.closed = true) : ∃ i now, t.log = s.log ++ [⟨i, now, .closing⟩] := by
  have hsame : t.cache.closed = s.cache.closed →
      ∃ i now, t.log = s.log ++ [⟨i, now, .closing⟩] := by
    intro hsame
    rw [hsame, hopen] at hclosed
    cases hclosed
  -- all steps but one leave the mark as it is
  cases hstep with
  | mark now => exact ⟨_, now, rfl⟩
  | operate now _ hop => exact hsame (closed_perform hop s.cache now)
  | @look i call _ now => exact hsame (closed_look call s.cache now)
  | @check i call _ now => exact hsame (closed_enter call s.cache now)
  | @concludeLocked i call outcome now | @concludeUnlocked i call outcome now =>
    exact hsame (closed_conclude call s.cache outcome now)
  | sweepBatch => exact hsame (closed_writing s.cache _ _)
  | @startSweeper _ sweeper => exact hsame (closed_attach s.cache sweeper)
  | closeAgain | acquire | release | clear => exact hsame rfl

theorem Reaches.exists_mark (h : Reaches jobs (start c) s) (hopen : c.closed = false)
    (hclosed : s.cache.closed = true) : ∃ i now, ⟨i, now, .closing⟩ ∈ s.log := by
  induction h with
  | refl =>
    rw [start, hopen] at hclosed
    cases hclosed
  | @tail b t _ hstep ih =>
    cases hb : b.cache.closed with
    | true =>
      obtain ⟨i, now, hmark⟩ := ih hb
      obtain ⟨j, moment, c', holder, progress, rfl, -⟩ := hstep.proceeds
      exact ⟨i, now, List.mem_append_left _ hmark⟩
    | false =>
      obtain ⟨i, now, hlog⟩ := hstep.exists_mark hb hclosed
      exact ⟨i, now, by simp [hlog]⟩

/-- A closed cache is empty, unless somebody is still about to clear it. -/
theorem Reaches.spent (h : Reaches jobs (start c) s) (hopen : c.closed = false)
    (hclosed : s.cache.closed = true) (hnobody : ∀ j, s.progress j ≠ .closing) :
    s.cache.Spent := by
  obtain ⟨i, now, hmark⟩ := h.exists_mark hopen hclosed
  rcases ((orderly_start c).reaches h).marked i now hmark with hclosing | ⟨-, hsealed⟩
  · exact absurd hclosing (hnobody i)
  · exact hsealed.spent

variable [Std.LawfulEqOrd α]

theorem Step.consistent (hstep : Step jobs s t) (h : s.cache.Consistent) :
    t.cache.Consistent := by
  cases hstep with
  | @operate i op now => exact h.enact (.perform op) now
  | @look i call outcome now => exact h.enact (.look call) now
  | @sweepBatch i order now => exact h.enact (.sweepBatch order) now
  | mark => exact ⟨h.store, h.untouched⟩
  | closeAgain | acquire | release => exact h
  | clear => exact h.clear
  | @check i call outcome now => exact h.enter call now
  | @concludeLocked i call outcome now | @concludeUnlocked i call outcome now =>
    exact h.conclude call outcome now
  | @startSweeper i sweeper => exact h.attach sweeper

theorem Reaches.consistent (h : Reaches jobs (start c) s) (hc : c.Consistent) :
    s.cache.Consistent := by
  induction h with
  | refl => exact hc
  | tail _ hstep ih => exact hstep.consistent ih

/-! ## Paths -/

/-- What one caller has come to, and when. -/
def path (s : Crowd ι α β) (i : ι) : List (Instant × Progress α β) :=
  s.log.filterMap fun m => if m.caller = i then some (m.moment, m.progress) else none

omit [Std.TransOrd α] [Std.LawfulEqOrd α] in
theorem path_proceed_self :
    (s.proceed i now c holder progress).path i = s.path i ++ [(now, progress)] := by
  simp [path, proceed]

omit [Std.TransOrd α] [Std.LawfulEqOrd α] in
theorem path_proceed_of_ne (h : j ≠ i) :
    (s.proceed j now c holder progress).path i = s.path i := by
  simp [path, proceed, h]

/-! ## The course of a call -/

/-- The caller looked up its key at `first`, found nothing, and began to load. What others did since
then led to `s`. -/
def Missed (jobs : ι → Job α β) (c : Cache α β) (i : ι) (key : α) (first : Instant)
    (s : Crowd ι α β) : Prop :=
  ∃ before, Reaches jobs (start c) before ∧ before.cache.store.live? key first = none ∧
    Reaches jobs (before.proceed i first (before.cache.tallied before.cache.store.tally.miss) none
      .loading) s

/-- How a call whose loader needs no lock comes to where it is, while others do what they like. -/
inductive Course (jobs : ι → Job α β) (c : Cache α β) (i : ι) (key : α) (lifetime : Lifetime)
    (outcome : Except Fault (Option β)) (s : Crowd ι α β) : Progress α β → Prop
  | ready (hpath : s.path i = []) : Course jobs c i key lifetime outcome s .ready
  /-- The key was live, and its value is the answer; no loader was run. -/
  | found {before : Crowd ι α β} {first : Instant} {entry : Entry β}
    (hbefore : Reaches jobs (start c) before)
    (hlive : before.cache.store.live? key first = some entry)
    (hafter : Reaches jobs (before.proceed i first (before.cache.lookup key first).cache none
      (.finished (.ok (.value (some entry.value))))) s)
    (hpath : s.path i = [(first, .finished (.ok (.value (some entry.value))))]) :
    Course jobs c i key lifetime outcome s (.finished (.ok (.value (some entry.value))))
  | loading {first : Instant} (hmissed : Missed jobs c i key first s)
    (hpath : s.path i = [(first, .loading)]) :
    Course jobs c i key lifetime outcome s .loading
  /-- The loader was run once, and what came of it met the cache as others had left it. -/
  | concluded {met : Crowd ι α β} {first last : Instant} {result : Except Fault (Answer α β)}
    {c' : Cache α β} (hmissed : Missed jobs c i key first met)
    (hconcludes : met.cache.Concludes key lifetime last outcome result c')
    (hspent : met.cache.closed = true → (∀ j, met.progress j ≠ .closing) → met.cache.Spent)
    (hafter : Reaches jobs (met.proceed i last c' met.holder (.finished result)) s)
    (hpath : s.path i = [(first, .loading), (last, .finished result)]) :
    Course jobs c i key lifetime outcome s (.finished result)

omit [Std.LawfulEqOrd α] in
/-- Whoever else goes on changes nothing about how the call came here. -/
theorem Course.aside (h : Course jobs c i key lifetime outcome s progress) (hstep : Step jobs s t)
    (hpath : t.path i = s.path i) : Course jobs c i key lifetime outcome t progress := by
  cases h with
  | ready hnil => exact .ready (hpath.trans hnil)
  | found hbefore hlive hafter hsame =>
    exact .found hbefore hlive (hafter.step hstep) (hpath.trans hsame)
  | loading hmissed hsame =>
    obtain ⟨before, hbefore, hdead, hmeanwhile⟩ := hmissed
    exact .loading ⟨before, hbefore, hdead, hmeanwhile.step hstep⟩ (hpath.trans hsame)
  | concluded hmissed hconcludes hspent hafter hsame =>
    exact .concluded hmissed hconcludes hspent (hafter.step hstep) (hpath.trans hsame)

omit [Std.LawfulEqOrd α] in
/-- The steps of a caller whose loader needs no lock are a look and a conclusion, unless it is where
it never comes to. -/
theorem Step.of_unlocked (hstep : Step jobs s t)
    (hjob : jobs i = .compute ⟨.getOrSet, key, lifetime⟩ outcome) :
    ∃ j now c holder progress, t = s.proceed j now c holder progress ∧ (j = i →
      (s.progress i = .ready ∧ holder = none ∧
        c = ((Call.mk .getOrSet key lifetime).look s.cache now).cache ∧
        progress = .ofLook ((Call.mk .getOrSet key lifetime).look s.cache now).answer) ∨
      (s.progress i = .loading ∧ holder = s.holder ∧
        c = ((Call.mk .getOrSet key lifetime).conclude s.cache outcome now).cache ∧
        progress =
          .finished ((Call.mk .getOrSet key lifetime).conclude s.cache outcome now).answer) ∨
      s.progress i = .waiting ∨ s.progress i = .checking ∨
        ∃ result, s.progress i = .leaving result) := by
  cases hstep with
  | operate now hother | closeAgain now hother | mark now hother | clear now hother
  | sweepBatch order now hother | startSweeper now hother =>
    refine ⟨_, _, _, _, _, rfl, fun hji => ?_⟩
    subst hji
    cases hother.symm.trans hjob
  | look now hown hready =>
    refine ⟨_, _, _, _, _, rfl, fun hji => .inl ?_⟩
    subst hji
    cases hown.symm.trans hjob
    exact ⟨hready, rfl, rfl, rfl⟩
  | concludeLocked now hown hlocks =>
    refine ⟨_, _, _, _, _, rfl, fun hji => ?_⟩
    subst hji
    cases hown.symm.trans hjob
    cases hlocks
  | concludeUnlocked now hown hlocks hloading =>
    refine ⟨_, _, _, _, _, rfl, fun hji => .inr (.inl ?_)⟩
    subst hji
    cases hown.symm.trans hjob
    exact ⟨hloading, rfl, rfl, rfl⟩
  | acquire now hwaiting =>
    exact ⟨_, _, _, _, _, rfl, fun hji => .inr (.inr (.inl (hji ▸ hwaiting)))⟩
  | check now _ hchecking =>
    exact ⟨_, _, _, _, _, rfl, fun hji => .inr (.inr (.inr (.inl (hji ▸ hchecking))))⟩
  | release now hleaving =>
    exact ⟨_, _, _, _, _, rfl, fun hji => .inr (.inr (.inr (.inr ⟨_, hji ▸ hleaving⟩)))⟩

theorem Course.step (h : Course jobs c i key lifetime outcome s (s.progress i))
    (hjob : jobs i = .compute ⟨.getOrSet, key, lifetime⟩ outcome) (hc : c.Consistent)
    (hopen : c.closed = false) (hs : Reaches jobs (start c) s) (hstep : Step jobs s t) :
    Course jobs c i key lifetime outcome t (t.progress i) := by
  obtain ⟨j, now, c', holder, progress, rfl, hown⟩ := hstep.of_unlocked hjob
  by_cases hji : j = i
  · subst hji
    rw [progress_proceed_self]
    -- the call looks, or concludes; it never waits for the lock, nor has it to release
    rcases hown rfl with ⟨hready, rfl, rfl, rfl⟩ | ⟨hloading, rfl, rfl, rfl⟩ |
      hwaiting | hchecking | ⟨result, hleaving⟩
    · rw [hready] at h
      cases h with
      | ready hnil =>
        cases hlive : s.cache.store.live? key now with
        | some entry =>
          rw [look_of_live hlive]
          refine .found hs hlive .refl ?_
          rw [path_proceed_self, hnil]
          rfl
        | none =>
          rw [look_of_dead hlive]
          refine .loading ⟨s, hs, hlive, .refl⟩ ?_
          rw [path_proceed_self, hnil]
          rfl
    · rw [hloading] at h
      cases h with
      | loading hmissed hpath =>
        refine .concluded hmissed ((hs.consistent hc).concludes key lifetime outcome now)
          (hs.spent hopen) .refl ?_
        rw [path_proceed_self, hpath]
        rfl
    · rw [hwaiting] at h
      cases h
    · rw [hchecking] at h
      cases h
    · rw [hleaving] at h
      cases h
  · rw [progress_proceed_of_ne (Ne.symm hji)]
    exact h.aside hstep (path_proceed_of_ne hji)

theorem Reaches.course (hs : Reaches jobs (start c) s)
    (hjob : jobs i = .compute ⟨.getOrSet, key, lifetime⟩ outcome) (hc : c.Consistent)
    (hopen : c.closed = false) : Course jobs c i key lifetime outcome s (s.progress i) := by
  induction hs with
  | refl => exact .ready rfl
  | tail hs hstep ih => exact ih.step hjob hc hopen hs hstep

/-! ## Coming to an end -/

omit [Std.LawfulEqOrd α] in
/-- Who has the lock goes on until it lets the lock go, and meanwhile nobody else need move. -/
theorem Going.exists_released {s : Crowd ι α β} (h : Going jobs s) (now : Instant)
    (hholder : s.holder = some j) (hij : i ≠ j) :
    ∃ t, Reaches jobs s t ∧ t.holder = none ∧ t.progress i = s.progress i := by
  have hholds := h.kept j hholder
  -- one step of the holder, which still has the lock, and then the rest
  have hgoOn : ∀ {c progress}, Step jobs s (s.proceed j now c s.holder progress) →
      (∃ t, Reaches jobs (s.proceed j now c s.holder progress) t ∧ t.holder = none ∧
        t.progress i = (s.proceed j now c s.holder progress).progress i) →
      ∃ t, Reaches jobs s t ∧ t.holder = none ∧ t.progress i = s.progress i := by
    rintro c progress hstep ⟨t, ht, hfree, hsame⟩
    exact ⟨t, .head hstep ht, hfree, hsame.trans (progress_proceed_of_ne hij)⟩
  cases hj : s.progress j with
  | leaving result => exact ⟨_, .single (.release now hj), rfl, progress_proceed_of_ne hij⟩
  | loading =>
    rw [hj] at hholds
    obtain ⟨call, outcome, hjob, hlocks⟩ := hholds
    have hstep := Step.concludeLocked now hjob hlocks hj
    exact hgoOn hstep ((h.step hstep).exists_released now hholder hij)
  | checking =>
    have hfits := h.fits j
    rw [hj] at hfits
    obtain ⟨call, outcome, hjob, -⟩ := hfits
    have hstep := Step.check now hjob hj
    exact hgoOn hstep ((h.step hstep).exists_released now hholder hij)
  | ready | waiting | closing | sweeping | finished _ =>
    rw [hj] at hholds
    exact hholds.elim
termination_by (s.progress j).left
decreasing_by
  · rw [progress_proceed_self, hj]
    exact Progress.left_ofEnter_lt _
  · rw [progress_proceed_self, hj]
    show 1 < 2
    omega

omit [Std.LawfulEqOrd α] in
theorem Going.exists_free (h : Going jobs s) (now : Instant)
    (hi : ¬ (s.progress i).holds (jobs i)) :
    ∃ t, Reaches jobs s t ∧ t.holder = none ∧ t.progress i = s.progress i := by
  cases hholder : s.holder with
  | none => exact ⟨s, .refl, hholder, rfl⟩
  | some j =>
    refine h.exists_released now hholder ?_
    rintro rfl
    exact hi (h.kept i hholder)

omit [Std.LawfulEqOrd α] in
theorem Going.exists_concluded (h : Going jobs s) (now : Instant)
    (hjob : jobs i = .compute ⟨.getOrSet, key, lifetime⟩ outcome)
    (hloading : s.progress i = .loading) :
    ∃ t result, Reaches jobs s t ∧ t.progress i = .finished result := by
  have hunlocked : ¬ (s.progress i).holds (jobs i) := by
    rw [hloading, hjob]
    rintro ⟨call, outcome', hsame, hlocks⟩
    cases hsame
    cases hlocks
  obtain ⟨t, ht, hfree, hsame⟩ := h.exists_free now hunlocked
  exact ⟨_, _, ht.step (.concludeUnlocked now hjob rfl (hsame.trans hloading) (.inl hfree)),
    progress_proceed_self⟩

omit [Std.LawfulEqOrd α] in
/-- The call can always be brought to an end. -/
theorem Course.exists_finished (h : Course jobs c i key lifetime outcome s (s.progress i))
    (hgoing : Going jobs s) (now : Instant)
    (hjob : jobs i = .compute ⟨.getOrSet, key, lifetime⟩ outcome) :
    ∃ t result, Reaches jobs s t ∧ t.progress i = .finished result := by
  generalize hprogress : s.progress i = progress at h
  cases h with
  | found | concluded => exact ⟨s, _, .refl, hprogress⟩
  | loading => exact hgoing.exists_concluded now hjob hprogress
  | ready =>
    obtain ⟨t, ht, hfree, hsame⟩ := hgoing.exists_free (i := i) now (by rw [hprogress]; exact id)
    have hlook := Step.look now hjob (hsame.trans hprogress) hfree
    cases hlive : t.cache.store.live? key now with
    | some entry =>
      rw [look_of_live hlive] at hlook
      exact ⟨_, _, ht.step hlook, progress_proceed_self⟩
    | none =>
      rw [look_of_dead hlive] at hlook
      obtain ⟨u, result, hu, hdone⟩ :=
        ((hgoing.reaches ht).step hlook).exists_concluded now hjob progress_proceed_self
      exact ⟨u, result, (ht.step hlook).trans hu, hdone⟩

/-! ## Every schedule -/

/-- Let callers do anything to a cache that begins empty, in steps that follow each other in any
order and at any moments. Take one whose loader needs no lock. If its look finds the key live, it
answers with that value and runs no loader. Otherwise it runs the loader once, and whatever others
do until it concludes, or the loader itself does, is there when it concludes: a fault of the loader
is passed on, and a value that may not be stored, or that comes after the cache was closed, is
dropped, while the cache stays as the others left it; any other value is stored in it, over whatever
they left of the key. And the call can always be brought to its end. -/
theorem course_of_reaches (capacity batch : Nat) (sweeper : Option Nat) {jobs : ι → Job α β}
    {s : Crowd ι α β} {i : ι} {key : α} {lifetime : Lifetime} {outcome : Except Fault (Option β)} :
    let c : Cache α β := { Cache.empty capacity batch with sweeper }
    Reaches jobs (start c) s → jobs i = .compute ⟨.getOrSet, key, lifetime⟩ outcome →
      Course jobs c i key lifetime outcome s (s.progress i) ∧
        ∃ t result, Reaches jobs s t ∧ t.progress i = .finished result := by
  intro c hs hjob
  have hc : c.Consistent := consistent_start capacity batch sweeper
  have hcourse := hs.course hjob hc rfl
  exact ⟨hcourse, hcourse.exists_finished ((going_start c).reaches hs) .latest hjob⟩

/-- While a loader runs, another call of the same kind finds nothing either and stores its value,
and yet another caller sets the key and removes it again: what was loaded first is stored last. One
more loader is running when the cache is closed, and what it loads is dropped. -/
theorem course_of_overtaken_loader :
    let jobs : Nat → Job Nat Nat
      | 0 => .compute ⟨.getOrSet, 1, .ofMillis 50⟩ (.ok (some 10))
      | 1 => .compute ⟨.getOrSet, 1, .forever⟩ (.ok (some 20))
      | 2 => .perform (.set 1 (some 30) .forever)
      | 3 => .perform (.remove [1])
      | 4 => .compute ⟨.getOrSet, 2, .forever⟩ (.ok (some 40))
      | 5 => .perform .close
      | _ => .perform (.get 1)
    let c : Cache Nat Nat := { Cache.empty 1 1 with sweeper := some 0 }
    ∃ s : Crowd Nat Nat Nat, Reaches jobs (start c) s ∧
      s.progress 0 = .finished (.ok (.value (some 10))) ∧
      s.progress 1 = .finished (.ok (.value (some 20))) ∧
      s.progress 4 = .finished (.ok (.value none)) ∧
      s.progress 6 = .finished (.ok (.value (some 10))) ∧
      Course jobs c 0 1 (.ofMillis 50) (.ok (some 10)) s (s.progress 0) ∧
      Course jobs c 4 2 .forever (.ok (some 40)) s (s.progress 4) := by
  intro jobs c
  have hstart : Reaches jobs (start c) _ := .refl
  have hs := hstart
    |>.step (.look (i := 0) (.clamp 1) rfl rfl rfl)
    |>.step (.look (i := 1) (.clamp 2) rfl rfl rfl)
    |>.step (.concludeUnlocked (i := 1) (.clamp 3) rfl rfl (by decide +kernel) (.inl rfl))
    |>.step (.operate (i := 2) (.clamp 4) rfl nofun rfl rfl)
    |>.step (.operate (i := 3) (.clamp 5) rfl nofun rfl rfl)
    |>.step (.concludeUnlocked (i := 0) (.clamp 4) rfl rfl (by decide +kernel) (.inl rfl))
    |>.step (.operate (i := 6) (.clamp 6) rfl nofun rfl rfl)
    |>.step (.look (i := 4) (.clamp 7) rfl (by decide +kernel) rfl)
    |>.step (.mark (i := 5) (.clamp 8) rfl (by decide +kernel) (by decide +kernel))
    |>.step (.clear (i := 5) (.clamp 8) rfl (by decide +kernel) rfl)
    |>.step (.concludeUnlocked (i := 4) (.clamp 9) rfl rfl (by decide +kernel) (.inl rfl))
  exact ⟨_, hs, by decide +kernel, by decide +kernel, by decide +kernel, by decide +kernel,
    (course_of_reaches 1 1 (some 0) hs rfl).1, (course_of_reaches 1 1 (some 0) hs rfl).1⟩

end Crowd

end ExpiringCache
