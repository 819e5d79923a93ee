import ExpiringCache.Proofs.TimedMap

/-!
# A cache without a bound is a plain timed map

1. **Compound writes** (`contents_put`, `contents_putNew`, `contents_removeAll`): what they do to
   the rows of a store without a bound.
2. **One errand** (`carry_view`): what is told of an errand, and the rows it leaves, are those of
   the plain map.
3. **Runs** (`trace_eq`): so are those of any list of errands, in which the clock may go back but
   never shows a moment before the epoch.
-/

namespace ExpiringCache

variable {α β ρ : Type} [Ord α] [Std.TransOrd α]

namespace Store

variable [Std.LawfulEqOrd α] {s : Store α β} {key k : α} {now : Instant}

/-! ## Without a bound -/

omit [Std.LawfulEqOrd α] in
/-- Without a bound an insert is a write and evicts nothing. -/
theorem insert_of_unbounded (h : s.recency.capacity = 0) (value : β) (lifetime : Lifetime) :
    s.insert key value lifetime now = ([], s.write key value lifetime now) := by
  have hfits : (s.write key value lifetime now).fits = true :=
    fits_iff.mpr (.inl (capacity_write.trans h))
  rw [insert, evictOverflow, if_pos hfits]

theorem contents_put (h : s.recency.capacity = 0) (value : Option β) (lifetime : Lifetime) :
    (s.put key value lifetime now).2.contents = s.contents.set key value lifetime now := by
  cases value with
  | none => simp [put, storable?, Rows.set, contents_remove]
  | some value =>
    by_cases hl : 0 ≤ lifetime.ns
    · simp [put, storable?, Lifetime.isStorable, hl, Rows.set, insert_of_unbounded h,
        contents_write]
    · simp [put, storable?, Lifetime.isStorable, hl, Rows.set, contents_remove]

theorem contents_putAll (h : s.Consistent) (hcap : s.recency.capacity = 0)
    (lifetime : Lifetime) (now : Instant) (pairs : List (α × Option β)) :
    (putAll lifetime now pairs s).2.contents =
      pairs.foldl (fun rows pair => rows.set pair.1 pair.2 lifetime now) s.contents := by
  induction pairs generalizing s with
  | nil => rfl
  | cons pair pairs ih =>
    have hput := put_snd s pair.1 pair.2 lifetime now
    rw [putAll, ih (by rw [hput]; exact h.after _) (by rw [hput, capacity_after h, hcap]),
      contents_put hcap]
    rfl

theorem contents_putNew (h : s.recency.capacity = 0) (key : α) (value : Option β)
    (lifetime : Lifetime) (now : Instant) :
    ((s.putNew key value lifetime now).1.1, (s.putNew key value lifetime now).2.contents) =
      s.contents.add key value lifetime now := by
  cases value with
  | none => simp [putNew, storable?, Rows.add]
  | some value =>
    by_cases hl : 0 ≤ lifetime.ns
    · simp [putNew, storable?, Lifetime.isStorable, hl, Rows.add, insert_of_unbounded h,
        contents_write]
    · simp [putNew, storable?, Lifetime.isStorable, hl, Rows.add]

/-- The last live key in the list gives the value, whichever end one begins at. -/
theorem contents_removeAll (now : Instant) (keys : List α) (s : Store α β) :
    ((removeAll now keys s).1, (removeAll now keys s).2.contents) =
      s.contents.remove keys now := by
  have hfold : ∀ last, ((removeAll now keys s).1.or last, (removeAll now keys s).2.contents) =
      keys.foldl (Rows.removeOne now) (last, s.contents) := by
    induction keys generalizing s with
    | nil => simp [removeAll]
    | cons key keys ih =>
      intro last
      have hvalue : (s.contents.live? key now).map (·.1) =
          ((s.remove key).1.filter (·.isLiveAt now)).map (·.value) := by
        rw [value_live?_contents, remove_fst, live?]
      rw [List.foldl_cons, Rows.removeOne, hvalue, ← contents_remove, ← ih]
      simp [removeAll, Option.or_assoc]
  simpa [Rows.remove] using hfold none

end Store

namespace Cache

/-- The plain map that a cache stands for. -/
def view (c : Cache α β) : TimedMap α β := ⟨c.store.contents, c.closed⟩

variable {σ τ : Type} {c : Cache α β} {now : Instant}

/-! ## One section -/

/-- A write section stands for a write to the plain map if its body stands for the change. -/
theorem view_writing (hcap : c.store.recency.capacity = 0) {refused : ρ} {refused' : σ}
    {body : Store α β → Change α β ρ} {change : Rows α β → σ × Rows α β} (f : ρ → τ) (g : σ → τ)
    (hrefused : f refused = g refused')
    (hanswer : f (body c.store).answer = g (change c.store.contents).1)
    (hrows : (body c.store).store.contents = (change c.store.contents).2) :
    f (c.writing refused body).answer = g (c.view.write refused' change).1 ∧
      (c.writing refused body).cache.view = (c.view.write refused' change).2 := by
  by_cases hclosed : c.closed = true
  · simp [writing, TimedMap.write, view, hclosed, hrefused]
  · simp [writing, TimedMap.write, view, hclosed, settle_of_unbounded hcap, hanswer, hrows]

theorem view_lookup (hcap : c.store.recency.capacity = 0) (key : α) (now : Instant) :
    (c.lookup key now).answer = (c.store.live? key now).map (·.value) ∧
      (c.lookup key now).cache.view = c.view := by
  cases h : c.store.live? key now with
  | none => simp [lookup, h, view, Store.contents]
  | some e =>
    simp [lookup, h, view, noteHit, Recency.isBounded, hcap, Store.contents]

variable [Std.LawfulEqOrd α]

/-- In a clock that never shows a moment before the epoch, no difference is out of range. -/
theorem timeLeftAt_of_live {e : Entry β} (hnow : 0 ≤ now.ms) (hlive : e.isLiveAt now = true) :
    e.timeLeftAt now = .ok (Rows.timeLeft e.content now) := by
  cases hd : e.deadline with
  | none => simp [Entry.timeLeftAt, Rows.timeLeft, Entry.content, hd]
  | some deadline =>
    have hlt := Entry.isLiveAt_iff.mp hlive deadline hd
    rw [Instant.lt_def] at hlt
    have hupper := deadline.upper
    have hgap : deadline.since? now = some (deadline.ms - now.ms) := by
      simp only [Instant.since?]
      rw [if_pos ⟨by omega, by omega⟩]
    simp [Entry.timeLeftAt, Rows.timeLeft, Entry.content, hd, hgap]
    omega

theorem view_perform (hc : c.Consistent) (hcap : c.store.recency.capacity = 0)
    (op : Operation α β) (hnow : 0 ≤ now.ms) :
    (c.perform op now).answer = .ok (c.view.perform op now).1 ∧
      (c.perform op now).cache.view = (c.view.perform op now).2 := by
  have hlive : ∀ key, c.store.contents.live? key now = (c.store.live? key now).map Entry.content :=
    fun key => Store.live?_contents
  have hvalue : ∀ key, (c.store.contents.live? key now).map (·.1) =
      (c.store.live? key now).map (·.value) := fun key => Store.value_live?_contents
  have hrows : c.view.rows = c.store.contents := rfl
  have hputNew := fun key value lifetime => Store.contents_putNew hcap key value lifetime now
  cases op with
  | set key value lifetime =>
    exact view_writing hcap (fun _ => Except.ok Answer.done) Except.ok rfl rfl
      (Store.contents_put hcap value lifetime)
  | setAll pairs lifetime =>
    exact view_writing hcap (fun _ => Except.ok Answer.done) Except.ok rfl rfl
      (Store.contents_putAll hc.store hcap lifetime now pairs)
  | setIfAbsent key value lifetime =>
    refine view_writing hcap (Except.ok ∘ Answer.flag) Except.ok rfl ?_ ?_ <;>
      cases h : c.store.live? key now <;> simp [hlive, h, ← hputNew]
  | get key =>
    obtain ⟨hanswer, hview⟩ := view_lookup hcap key now
    exact ⟨congrArg (Except.ok ∘ Answer.value) (hanswer.trans (hvalue key).symm), hview⟩
  | getOrSet key value lifetime =>
    have hmiss : (({ c.store with tally := c.store.tally.miss }.putNew key value lifetime now).1.1,
        ({ c.store with tally := c.store.tally.miss }.putNew key value lifetime now).2.contents) =
          c.store.contents.add key value lifetime now :=
      Store.contents_putNew (s := { c.store with tally := c.store.tally.miss }) hcap key value
        lifetime now
    have hhit : ({ c.store with tally := c.store.tally.hit }.touch key).contents =
        c.store.contents := Store.contents_touch _ key
    refine view_writing hcap (Except.ok ∘ Answer.value) Except.ok rfl ?_ ?_ <;>
      cases h : c.store.live? key now <;> simp [hlive, h, hhit, ← hmiss]
  | contains key => simp [perform, contains, reading, Turn.map, TimedMap.perform, hrows, hlive]
  | timeLeft key =>
    cases h : c.store.live? key now with
    | none =>
      simp [perform, timeLeft, reading, Turn.map, TimedMap.perform, hrows, hlive, h, Except.map]
    | some e =>
      have hleft := timeLeftAt_of_live hnow (Store.live?_eq_some_iff.mp h).2
      simp [perform, timeLeft, reading, Turn.map, TimedMap.perform, hrows, hlive, h, hleft,
        Except.map]
  | remove keys =>
    have hremove := Store.contents_removeAll now keys c.store
    refine view_writing hcap (Except.ok ∘ Answer.value) Except.ok rfl ?_ ?_ <;> simp [← hremove]
  | update key value =>
    refine view_writing hcap (fun old : Option β × Bool => Except.ok (Answer.replaced old.1 old.2))
      Except.ok rfl ?_ ?_ <;> cases h : c.store.live? key now
    · simp [hlive, h]
    · simp [hlive, h]
    · simp [hlive, h]
    · have he := (Store.live?_eq_some_iff.mp h).1
      cases value <;>
        simp [hlive, h, Store.contents_remove, Store.contents_replaceValue he, Entry.content]
  | setLifetime key lifetime =>
    refine view_writing hcap (fun left : Except Fault TimeLeft => left.map Answer.timeLeft)
      Except.ok rfl ?_ ?_ <;> cases h : c.store.live? key now with
    | none => simp [hlive, h, Except.map]
    | some e =>
      have hleft := timeLeftAt_of_live hnow (Store.live?_eq_some_iff.mp h).2
      by_cases hl : 0 ≤ lifetime.ns <;>
        simp [hlive, h, hleft, Lifetime.isStorable, hl, Store.contents_setLifetime h,
          Store.contents_remove, Except.map]
  | size =>
    simp [perform, size, reading, Turn.map, TimedMap.perform, hrows, Store.live_contents,
      hc.store.indexed.liveCount_eq]
  | pairs => simp [perform, pairs, reading, Turn.map, TimedMap.perform, hrows, Store.live_contents]
  | keys => simp [perform, keys, reading, Turn.map, TimedMap.perform, hrows, Store.live_contents]
  | values =>
    simp [perform, values, reading, Turn.map, TimedMap.perform, hrows, Store.live_contents]
  | clear => simp [perform, clear, Turn.map, TimedMap.perform, view, Store.contents, Store.reset]
  | close =>
    by_cases hclosed : c.closed = true <;>
      simp [perform, close, clear, shut, Turn.map, TimedMap.perform, view, hclosed, Store.contents,
        Store.reset]

theorem view_look (hcap : c.store.recency.capacity = 0) (call : Call α) (now : Instant) :
    (call.look c now).answer = c.view.look call now ∧ (call.look c now).cache.view = c.view := by
  obtain ⟨form, key, lifetime⟩ := call
  have hlive : c.view.rows.live? key now = (c.store.live? key now).map Entry.content :=
    Store.live?_contents
  obtain ⟨hanswer, hview⟩ := view_lookup hcap key now
  cases form with
  | setIfAbsent =>
    cases h : c.store.live? key now <;>
      simp [Call.look, contains, reading, Turn.map, TimedMap.look, hlive, h]
  | getOrSet | getOrSetLocked =>
    cases h : c.store.live? key now <;>
      simp [Call.look, Turn.map, TimedMap.look, hlive, h, hanswer, hview]

theorem view_finish (hcap : c.store.recency.capacity = 0) (call : Call α)
    (outcome : Except Fault (Option β)) (now later : Instant) :
    (call.finish c outcome now later).answer = (c.view.finish call outcome now later).1 ∧
      (call.finish c outcome now later).cache.view =
        (c.view.finish call outcome now later).2 := by
  obtain ⟨form, key, lifetime⟩ := call
  have hlive : c.store.contents.live? key now = (c.store.live? key now).map Entry.content :=
    Store.live?_contents
  have hputNew := fun value => Store.contents_putNew hcap key value lifetime later
  cases form with
  | getOrSet =>
    cases outcome with
    | error fault => simp [Call.finish, Call.enter, Call.conclude, TimedMap.finish]
    | ok value =>
      by_cases hclosed : c.closed = true
      · cases hv : storable? value lifetime <;>
          simp [Call.finish, Call.enter, Call.conclude, Call.storeUnlocked, writing, Turn.map,
            TimedMap.finish, TimedMap.write, view, hclosed, hv]
      · cases hv : storable? value lifetime with
        | none =>
          -- what may not be stored is not stored by either, and the lock is not even taken
          have hadd := hputNew value
          simp only [Store.putNew, hv] at hadd
          simp [Call.finish, Call.enter, Call.conclude, Call.storeUnlocked, Turn.map,
            TimedMap.finish, TimedMap.write, view, hclosed, hv, ← hadd]
        | some loaded =>
          obtain rfl := (storable?_eq_some_iff.mp hv).2
          simp [Call.finish, Call.enter, Call.conclude, Call.storeUnlocked, writing, Turn.map,
            TimedMap.finish, TimedMap.write, view, hclosed, settle_of_unbounded hcap, hv,
            ← hputNew]
  | setIfAbsent =>
    by_cases hclosed : c.closed = true
    · simp [Call.finish, Call.enter, writing, TimedMap.finish, TimedMap.write, view, hclosed]
    · cases h : c.store.live? key now <;> cases outcome <;>
        simp [Call.finish, Call.enter, writing, TimedMap.finish, TimedMap.write, view, hclosed,
          settle_of_unbounded hcap, hlive, h, Call.conclude, Call.storeLocked, Turn.map, ← hputNew]
  | getOrSetLocked =>
    by_cases hclosed : c.closed = true
    · simp [Call.finish, Call.enter, writing, TimedMap.finish, TimedMap.write, view, hclosed]
    · cases h : c.store.live? key now <;> cases outcome <;>
        simp [Call.finish, Call.enter, writing, TimedMap.finish, TimedMap.write, view, hclosed,
          settle_of_unbounded hcap, hlive, h, Call.conclude, Call.storeLocked, Turn.map, ← hputNew,
          Store.contents_touch]

theorem view_sweep (hc : c.Consistent) (hcap : c.store.recency.capacity = 0)
    (orders : Nat → Arrangement α) (now : Instant) :
    (c.sweep orders now).cache.view =
      if c.closed then c.view
      else { c.view with rows := c.view.rows.filter fun _ => Rows.isLive now } := by
  by_cases hclosed : c.closed = true
  · rw [if_pos hclosed, sweep_of_closed hclosed]
  · rw [if_neg hclosed]
    have hopen : c.closed = false := by simpa using hclosed
    have hkept : (c.sweep orders now).cache.closed = c.closed :=
      closed_sweepRounds orders now _ 0 c
    have hrows : (c.sweep orders now).cache.store.contents =
        c.store.contents.filter fun _ => Rows.isLive now := by
      apply Std.ExtTreeMap.ext_getElem?
      intro k
      rw [Store.getElem?_contents, getElem?_sweep hc hopen, settled_of_unbounded hcap,
        Std.ExtTreeMap.getElem?_filter', ← Store.live?_contents]
      rfl
    rw [view, hkept, hrows]
    rfl

/-! ## Errands -/

theorem view_carry (hc : c.Consistent) (hcap : c.store.recency.capacity = 0)
    (errand : Errand α β) (hclock : ∀ t ∈ errand.readings, 0 ≤ t.ms) :
    (c.carry errand).1 = (c.view.carry errand).1 ∧
      (c.carry errand).2.view = (c.view.carry errand).2 := by
  have hfinish : ∀ c : Cache α β, c.store.recency.capacity = 0 →
      ∀ call outcome now later,
        (c.carry (.finish call outcome now later)).1 =
            (c.view.carry (.finish call outcome now later)).1 ∧
          (c.carry (.finish call outcome now later)).2.view =
            (c.view.carry (.finish call outcome now later)).2 := by
    intro c hcap call outcome now later
    obtain ⟨hanswer, hview⟩ := view_finish hcap call outcome now later
    exact ⟨by simp only [carry, TimedMap.carry, hanswer], hview⟩
  cases errand with
  | perform op now =>
    obtain ⟨hanswer, hview⟩ := view_perform hc hcap op (hclock now (by simp [Errand.readings]))
    exact ⟨congrArg Report.answered hanswer, hview⟩
  | compute call outcome first second last =>
    obtain ⟨hphase, hview⟩ := view_look hcap call first
    have hcap' : (call.look c first).cache.store.recency.capacity = 0 :=
      (capacity_carry hc (.look call first)).trans hcap
    rw [carry_compute, TimedMap.carry, ← hphase]
    cases (call.look c first).answer with
    | finished result => exact ⟨rfl, hview⟩
    | waiting | loading =>
      have hrest := hfinish (call.look c first).cache hcap' call outcome second last
      rwa [hview] at hrest
  | look call now =>
    obtain ⟨hphase, hview⟩ := view_look hcap call now
    exact ⟨congrArg Report.looked hphase, hview⟩
  | finish call outcome now later => exact hfinish c hcap call outcome now later
  | sweep orders now => exact ⟨rfl, view_sweep hc hcap orders now⟩

/-- Carries errands out one after the other; tells what is told of each, and the contents after
it. -/
def trace : Cache α β → List (Errand α β) → List (Report α β × Rows α β)
  | _, [] => []
  | c, errand :: errands =>
    let done := c.carry errand
    (done.1, done.2.store.contents) :: trace done.2 errands

theorem trace_view (hc : c.Consistent) (hcap : c.store.recency.capacity = 0)
    {errands : List (Errand α β)}
    (hclock : ∀ errand ∈ errands, ∀ t ∈ errand.readings, 0 ≤ t.ms) :
    c.trace errands = c.view.trace errands := by
  induction errands generalizing c with
  | nil => rfl
  | cons errand errands ih =>
    obtain ⟨hreport, hview⟩ := view_carry hc hcap errand (hclock errand (by simp))
    have hrest := ih (hc.carry errand) ((capacity_carry hc errand).trans hcap)
      fun e he => hclock e (by simp [he])
    have hrows : (c.carry errand).2.store.contents = (c.view.carry errand).2.rows :=
      congrArg TimedMap.rows hview
    rw [trace, TimedMap.trace, hreport, hrows, hrest, hview]

/-- Whatever errands a cache without a bound is sent on, and wherever the clock goes as long as it
shows no moment before the epoch, what is told of each of them and what is stored after it are
what a plain timed map tells and holds. -/
theorem trace_eq_timedMap (batch : Nat) {errands : List (Errand α β)}
    (hclock : ∀ errand ∈ errands, ∀ t ∈ errand.readings, 0 ≤ t.ms) :
    (empty 0 batch).trace errands = TimedMap.empty.trace errands := by
  have hview : (empty 0 batch : Cache α β).view = .empty := by
    simp [view, empty, Store.contents, Store.empty, TimedMap.empty]
  rw [trace_view (consistent_empty 0 batch) rfl hclock, hview]

/-- Rows expire, come back to life as the clock goes back, and are computed while it moves; a sweep
deletes the one that is expired then, and a write to the closed cache is ignored. -/
theorem trace_eq_timedMap_of_moving_clock :
    let errands : List (Errand Nat Nat) :=
      [.perform (.setAll [(1, some 10), (2, some 20), (1, some 11)] (.ofMillis 5)) (.clamp 10),
        .perform (.setLifetime 2 (.ofMillis 50)) (.clamp 12), .perform .size (.clamp 20),
        .perform .size (.clamp 11),
        .compute ⟨.getOrSetLocked, 3, .ofMillis 5⟩ (.ok (some 30)) (.clamp 20) (.clamp 9)
          (.clamp 0),
        .compute ⟨.setIfAbsent, 1, .forever⟩ (.error .cancelled) (.clamp 20) (.clamp 14) (.clamp 0),
        .sweep (fun _ => .asListed) (.clamp 15), .perform .close (.clamp 3),
        .perform (.set 4 (some 40) .forever) (.clamp 2)]
    (∀ errand ∈ errands, ∀ t ∈ errand.readings, 0 ≤ t.ms) ∧
      ((empty 0 1).trace errands).map (·.2.keys) =
        [[1, 2], [1, 2], [1, 2], [1, 2], [1, 2, 3], [1, 2, 3], [2], [], []] ∧
      (empty 0 1).trace errands = TimedMap.empty.trace errands := by
  refine ⟨by decide, by decide +kernel, trace_eq_timedMap 1 (by decide)⟩

end Cache

end ExpiringCache
