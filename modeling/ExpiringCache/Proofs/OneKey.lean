import ExpiringCache.Proofs.Callers
import ExpiringCache.Proofs.Indistinct

/-!
# One key of an open cache

A caller who computes a value goes by the row of one key: whether the row is live decides what is
answered, and whether a loader runs. What others do to the cache meanwhile matters only as far as it
changes that row.

1. **Inserting** (`Store.Consistent.justWritten_insert`): no key is evicted to make room for
   itself, and the key comes last in the order of use.
2. **The parts of a call** (`Consistent.enter`, `closed_enter`): they keep the indices in order, and
   neither close the cache nor open it.
3. **An open cache with a row** (`Cache.Shows`): reads and looks keep the row, and a loaded value
   that may be stored replaces it.
4. **Answers** (`Shows.answer_look`, `answer_enter`): both looks of a call find what the row says.
-/

namespace ExpiringCache

variable {α β ρ : Type} [Ord α] [Std.TransOrd α]

/-- Looks at the store and at most counts a lookup. -/
def Operation.isRead : Operation α β → Bool
  | .get _ | .contains _ | .timeLeft _ | .size | .pairs | .keys | .values => true
  | .set .. | .setAll .. | .setIfAbsent .. | .getOrSet .. | .remove _ | .update .. | .setLifetime ..
  | .clear | .close => false

namespace Rows

/-- The value of a row, if there is one and it is live. -/
def value? (row? : Option (β × Option Instant)) (now : Instant) : Option β :=
  (row?.filter (isLive now)).map (·.1)

variable {row : β × Option Instant} {now : Instant}

theorem value?_of_live (h : isLive now row = true) : value? (some row) now = some row.1 := by
  simp [value?, Option.filter, h]

end Rows

namespace Store

/-- The key has been written at `now`, and nothing since. Where an order of use is kept, it comes
after all the others. -/
structure JustWritten (s : Store α β) (key : α) (value : β) (lifetime : Lifetime)
    (now : Instant) : Prop where
  live : ∃ e, s.live? key now = some e ∧ e.value = value ∧ e.deadline = lifetime.deadline now
  last : 0 < s.recency.capacity → ∀ k e, k ≠ key → s.entries[k]? = some e → s.Before k key

variable [Std.LawfulEqOrd α] {s : Store α β} {key : α} {value : β} {lifetime : Lifetime}
  {now : Instant}

/-- A key that has just been written comes last in the order of use, so it is no victim. -/
theorem Consistent.not_mem_insert_fst (h : s.Consistent) :
    key ∉ (s.insert key value lifetime now).1 := by
  intro hvictim
  have hroom := h.insert key value lifetime now
  obtain ⟨-, hmany, hlive, hfirst⟩ := hroom.of_mem_victims hvictim
  -- some other key is live too, and would come after the one that comes last
  obtain ⟨k, hk, hklive⟩ := exists_live_ne
    (show 1 < ((s.write key value lifetime now).liveEntries now).length by omega) key
  obtain ⟨e, he⟩ := stored_of_live hlive
  obtain ⟨f, hf⟩ := stored_of_live hklive
  have hbefore := ((follows_write key value lifetime now).before_iff h.indexed
    (h.indexed.write key value lifetime now) (by omega) he hf).mp (hfirst k hk hklive)
  rcases hbefore with ⟨hsame, -⟩ | ⟨hne, -⟩
  · exact hk (Option.some.inj hsame).symm
  · exact hne rfl

/-- What is inserted is live, unless it has a deadline and the clock can show no later moment. -/
theorem Consistent.live?_insert_self (h : s.Consistent)
    (hlasts : lifetime.deadline now = none ∨ now < .latest) :
    (s.insert key value lifetime now).2.live? key now = some (s.written value lifetime now) := by
  have hroom := h.insert key value lifetime now
  refine (hroom.live_eq key h.not_mem_insert_fst).trans ?_
  rcases hlasts with hforever | hnow
  · refine live?_eq_some_iff.mpr ⟨getElem?_write_self, Entry.isLiveAt_iff.mpr fun t ht => ?_⟩
    have hdeadline : (s.written value lifetime now).deadline = none := hforever
    rw [hdeadline] at ht
    cases ht
  · exact live?_write_self hnow

theorem Consistent.contents_insert_self (h : s.Consistent)
    (hlive : Rows.isLive now (value, lifetime.deadline now) = true) :
    (s.insert key value lifetime now).2.contents[key]? = some (value, lifetime.deadline now) := by
  have hkept := (h.insert key value lifetime now).live_eq key h.not_mem_insert_fst
  have hwritten : (s.write key value lifetime now).contents.live? key now =
      some (value, lifetime.deadline now) := by
    rw [contents_write, Rows.live?_insert_self]
    simp [Option.filter, hlive]
  rw [live?_contents, ← hkept, ← live?_contents, Rows.live?, Option.filter_eq_some_iff] at hwritten
  exact hwritten.1

theorem Consistent.justWritten_insert (h : s.Consistent)
    (hlasts : lifetime.deadline now = none ∨ now < .latest) :
    (s.insert key value lifetime now).2.JustWritten key value lifetime now := by
  have hlive : (s.insert key value lifetime now).2.live? key now =
      some (s.written value lifetime now) := h.live?_insert_self hlasts
  refine ⟨⟨_, hlive, rfl, rfl⟩, fun bounded k e hk he => ?_⟩
  have hroom := h.insert key value lifetime now
  rw [hroom.capacity_eq, capacity_write] at bounded
  -- all positions that were given before come before the next one
  have hold := hroom.entry_of k e he
  rw [getElem?_write_of_ne hk] at hold
  obtain ⟨p, hposition, hp⟩ := h.indexed.ranked.position bounded hold
  refine ⟨p, s.recency.next, by simp [position?, he, hposition], ?_,
    h.indexed.ranked.lt_next p k hp⟩
  simp [position?, (live?_eq_some_iff.mp hlive).1, written, bounded]

end Store

namespace Cache

variable {c : Cache α β} {key : α} {row : Option (β × Option Instant)} {now : Instant}

/-- The cache is open, and has this row for the key, live or not. -/
structure Shows (c : Cache α β) (key : α) (row : Option (β × Option Instant)) : Prop where
  consistent : c.Consistent
  isOpen : c.closed = false
  row_eq : c.store.contents[key]? = row

/-! ## What the parts of a call keep -/

theorem closed_writing (c : Cache α β) (refused : ρ) (body : Store α β → Change α β ρ) :
    (c.writing refused body).cache.closed = c.closed := by
  simp only [writing]
  split
  · rfl
  · exact closed_settle

omit [Std.TransOrd α] in
theorem closed_attach (c : Cache α β) (sweeper : Option Nat) :
    (c.attach sweeper).closed = c.closed := by
  simp only [attach]
  split <;> rfl

theorem closed_lookup (c : Cache α β) (key : α) (now : Instant) :
    (c.lookup key now).cache.closed = c.closed := by
  simp only [lookup]
  split
  · exact closed_noteHit _ key
  · rfl

theorem closed_look (call : Call α) (c : Cache α β) (now : Instant) :
    (call.look c now).cache.closed = c.closed := by
  obtain ⟨form, key, lifetime⟩ := call
  cases form with
  | setIfAbsent => rfl
  | getOrSet | getOrSetLocked => exact closed_lookup c key now

/-- A look changes nobody's value or deadline. -/
theorem contents_look (call : Call α) (c : Cache α β) (now : Instant) :
    (call.look c now).cache.store.contents = c.store.contents := by
  rw [cache_look]
  refine contents_after ?_
  obtain ⟨form, key, lifetime⟩ := call
  cases form with
  | setIfAbsent => rfl
  | getOrSet | getOrSetLocked =>
    rcases c.counts_cases key now with hcount | ⟨hcount, -⟩ <;>
      simp only [Call.lookEffect, hcount, Effect.locks]

theorem closed_enter (call : Call α) (c : Cache α β) (now : Instant) :
    (call.enter c now).cache.closed = c.closed := by
  obtain ⟨form, key, lifetime⟩ := call
  cases form with
  | getOrSet => rfl
  | setIfAbsent | getOrSetLocked => exact closed_writing c _ _

theorem closed_conclude (call : Call α) (c : Cache α β) (outcome : Except Fault (Option β))
    (now : Instant) : (call.conclude c outcome now).cache.closed = c.closed := by
  obtain ⟨form, key, lifetime⟩ := call
  cases outcome with
  | error fault => rfl
  | ok value =>
    cases form with
    | setIfAbsent | getOrSetLocked => rfl
    | getOrSet =>
      simp only [Call.conclude, Call.storeUnlocked, cache_map]
      cases storable? value lifetime with
      | none => rfl
      | some loaded => exact closed_writing c _ _

/-- Only closing a cache closes it. -/
theorem closed_perform {op : Operation α β} (hop : op ≠ .close) (c : Cache α β) (now : Instant) :
    (c.perform op now).cache.closed = c.closed := by
  cases op with
  | close => exact absurd rfl hop
  | get key => exact closed_lookup c key now
  | set | setAll | setIfAbsent | getOrSet | remove | update | setLifetime =>
    exact closed_writing c _ _
  | contains | timeLeft | size | pairs | keys | values | clear => rfl

theorem Consistent.attach (h : c.Consistent) (sweeper : Option Nat) :
    (c.attach sweeper).Consistent := by
  simp only [Cache.attach]
  split
  · exact h
  · exact ⟨h.store, h.untouched⟩

variable [Std.LawfulEqOrd α]

theorem Consistent.withDeeds (h : c.Consistent) (deeds : List (Deed α β)) :
    { c with store := c.store.afterAll deeds }.Consistent := by
  refine ⟨h.store.afterAll deeds, fun hcap => h.untouched ?_⟩
  rwa [Store.capacity_afterAll h.store] at hcap

theorem Consistent.enter (h : c.Consistent) (call : Call α) (now : Instant) :
    (call.enter c now).cache.Consistent := by
  obtain ⟨form, key, lifetime⟩ := call
  cases form with
  | getOrSet => exact h
  | setIfAbsent =>
    simp only [Call.enter]
    rw [cache_writing c _ (fun _ => []) fun s => by split <;> rfl]
    exact h.after _
  | getOrSetLocked =>
    simp only [Call.enter]
    rw [cache_writing c _ (fun s => if (s.live? key now).isSome then [.touch key] else [])
      fun s => by cases s.live? key now <;> rfl]
    exact h.after _

theorem Consistent.conclude (h : c.Consistent) (call : Call α)
    (outcome : Except Fault (Option β)) (now : Instant) :
    (call.conclude c outcome now).cache.Consistent := by
  obtain ⟨form, key, lifetime⟩ := call
  cases outcome with
  | error fault => exact h
  | ok value =>
    cases form with
    | setIfAbsent | getOrSetLocked =>
      simp only [Call.conclude, Call.storeLocked, cache_map, Store.putNew_snd]
      exact h.withDeeds _
    | getOrSet =>
      simp only [Call.conclude, Call.storeUnlocked, cache_map]
      cases storable? value lifetime with
      | none => exact h
      | some loaded =>
        simp only
        rw [cache_writing c _ (fun _ => Deed.putNew key (some loaded) lifetime now) fun s =>
          Store.putNew_snd s key (some loaded) lifetime now]
        exact h.after _

/-! ## An open cache with a row -/

theorem Shows.value_eq (h : c.Shows key row) (now : Instant) :
    (c.store.live? key now).map (·.value) = Rows.value? row now := by
  rw [← Store.value_live?_contents, Rows.live?, h.row_eq, Rows.value?]

theorem Shows.live?_eq_none (h : c.Shows key row) (hdead : Rows.value? row now = none) :
    c.store.live? key now = none := by
  rw [← h.value_eq, Option.map_eq_none_iff] at hdead
  exact hdead

theorem Shows.exists_live (h : c.Shows key row) {value : β}
    (hlive : Rows.value? row now = some value) :
    ∃ e, c.store.live? key now = some e ∧ e.value = value := by
  rwa [← h.value_eq, Option.map_eq_some_iff] at hlive

/-! ## What keeps the row -/

theorem Shows.counts (h : c.Shows key row) (k : α) (now : Instant) :
    (c.after (c.counts k now)).Shows key row := by
  rcases c.counts_cases k now with hmiss | ⟨hhit, -⟩
  · rw [hmiss]
    exact ⟨h.consistent.after .miss, h.isOpen, h.row_eq⟩
  · rw [hhit]
    exact ⟨h.consistent.after (.hit k), (closed_noteHit _ k).trans h.isOpen,
      (congrArg (·[key]?) (contents_after rfl)).trans h.row_eq⟩

theorem Shows.perform (h : c.Shows key row) {op : Operation α β} (hread : op.isRead = true)
    (now : Instant) : (c.perform op now).cache.Shows key row := by
  cases op with
  | get k =>
    rw [cache_perform]
    exact h.counts k now
  | contains | timeLeft | size | pairs | keys | values => exact h
  | _ => cases hread

theorem Shows.look (h : c.Shows key row) (call : Call α) (now : Instant) :
    (call.look c now).cache.Shows key row where
  consistent := h.consistent.enact (.look call) now
  isOpen := (closed_look call c now).trans h.isOpen
  row_eq := (congrArg (·[key]?) (contents_look call c now)).trans h.row_eq

omit [Std.LawfulEqOrd α] in
theorem Shows.attach (h : c.Shows key row) (sweeper : Option Nat) :
    (c.attach sweeper).Shows key row where
  consistent := h.consistent.attach sweeper
  isOpen := (closed_attach c sweeper).trans h.isOpen
  row_eq := by
    simp only [Cache.attach]
    split <;> exact h.row_eq

theorem Shows.settle (h : c.Shows key row) : c.settle.Shows key row where
  consistent := h.consistent.settle
  isOpen := closed_settle.trans h.isOpen
  row_eq := (congrArg (·[key]?) contents_settled).trans h.row_eq

/-- The second look settles the store, and may leave one touch more. -/
theorem Shows.enter (h : c.Shows key row) (call : Call α) (now : Instant) :
    (call.enter c now).cache.Shows key row where
  consistent := h.consistent.enter call now
  isOpen := (closed_enter call c now).trans h.isOpen
  row_eq := by
    obtain ⟨form, k, lifetime⟩ := call
    cases form with
    | getOrSet => exact h.row_eq
    | setIfAbsent =>
      simp only [Call.enter, writing, h.isOpen, Bool.false_eq_true, if_false]
      split <;> exact h.settle.row_eq
    | getOrSetLocked =>
      simp only [Call.enter, writing, h.isOpen, Bool.false_eq_true, if_false]
      split
      · exact (congrArg (·[key]?) (Store.contents_touch _ k)).trans h.settle.row_eq
      · exact h.settle.row_eq

/-! ## What the loader brings -/

omit [Std.LawfulEqOrd α] in
/-- A loader that fails, or whose value may not be stored, changes nothing. -/
theorem conclude_of_unstored {call : Call α} (hlocks : call.form.locks = true)
    {outcome : Except Fault (Option β)}
    (hnone : ∀ value, outcome = .ok value → storable? value call.lifetime = none) :
    (call.conclude c outcome now).cache = c := by
  obtain ⟨form, k, lifetime⟩ := call
  cases outcome with
  | error fault => rfl
  | ok value =>
    have hvalue : storable? value lifetime = none := hnone value rfl
    cases form with
    | getOrSet => cases hlocks
    | setIfAbsent | getOrSetLocked =>
      simp [Call.conclude, Call.storeLocked, Store.putNew, hvalue]

theorem Shows.conclude (h : c.Shows key row) {call : Call α} (hlocks : call.form.locks = true)
    {value : Option β} {loaded : β} (hvalue : storable? value call.lifetime = some loaded)
    (hlive : Rows.isLive now (loaded, call.lifetime.deadline now) = true) :
    (call.conclude c (.ok value) now).cache.Shows call.key
      (some (loaded, call.lifetime.deadline now)) := by
  obtain ⟨form, k, lifetime⟩ := call
  have hcache : (Call.conclude ⟨form, k, lifetime⟩ c (.ok value) now).cache =
      { c with store := (c.store.insert k loaded lifetime now).2 } := by
    cases form with
    | getOrSet => cases hlocks
    | setIfAbsent | getOrSetLocked =>
      simp only [Call.conclude, Call.storeLocked, cache_map, Store.putNew, hvalue]
  refine ⟨h.consistent.conclude _ _ _, (closed_conclude _ c _ now).trans h.isOpen, ?_⟩
  rw [hcache]
  exact h.consistent.store.contents_insert_self hlive

/-! ## Answers -/

theorem Shows.answer_look (h : c.Shows key row) (lifetime : Lifetime) (now : Instant) :
    ((Call.mk .getOrSetLocked key lifetime).look c now).answer =
      (Rows.value? row now).elim .waiting fun value => .finished (.ok (.value (some value))) := by
  simp only [Call.look, Turn.map, answer_lookup, h.value_eq]
  cases Rows.value? row now <;> rfl

theorem Shows.answer_enter (h : c.Shows key row) (lifetime : Lifetime) (now : Instant) :
    ((Call.mk .getOrSetLocked key lifetime).enter c now).answer =
      (Rows.value? row now).elim .loading fun value => .finished (.ok (.value (some value))) := by
  simp only [Call.enter, writing, h.isOpen, Bool.false_eq_true, if_false]
  cases hvalue : Rows.value? row now with
  | none =>
    rw [h.settle.live?_eq_none hvalue]
    rfl
  | some value =>
    obtain ⟨e, he, rfl⟩ := h.settle.exists_live hvalue
    rw [he]
    rfl

omit [Std.LawfulEqOrd α] in
theorem answer_conclude (c : Cache α β) (key : α) (lifetime : Lifetime)
    (outcome : Except Fault (Option β)) (now : Instant) :
    ((Call.mk .getOrSetLocked key lifetime).conclude c outcome now).answer =
      outcome.map fun value => .value (storable? value lifetime) := by
  cases outcome with
  | error fault => rfl
  | ok value =>
    exact congrArg (Except.ok ∘ Answer.value) (Store.putNew_fst_fst c.store key value lifetime now)

/-! ## Answers to those who set a key that is not live -/

theorem Shows.answer_look_setIfAbsent (h : c.Shows key row) (lifetime : Lifetime) (now : Instant) :
    ((Call.mk .setIfAbsent key lifetime).look c now).answer =
      (Rows.value? row now).elim .waiting fun _ => .finished (.ok (.flag false)) := by
  have hsome := congrArg Option.isSome (h.value_eq now)
  rw [Option.isSome_map] at hsome
  simp only [Call.look, Turn.map, contains, reading, hsome]
  cases Rows.value? row now <;> rfl

theorem Shows.answer_enter_setIfAbsent (h : c.Shows key row) (lifetime : Lifetime)
    (now : Instant) :
    ((Call.mk .setIfAbsent key lifetime).enter c now).answer =
      (Rows.value? row now).elim .loading fun _ => .finished (.ok (.flag false)) := by
  have hsome := congrArg Option.isSome (h.settle.value_eq now)
  rw [Option.isSome_map] at hsome
  simp only [Call.enter, writing, h.isOpen, Bool.false_eq_true, if_false, hsome]
  cases Rows.value? row now <;> rfl

omit [Std.LawfulEqOrd α] in
theorem answer_conclude_setIfAbsent (c : Cache α β) (key : α) (lifetime : Lifetime)
    (outcome : Except Fault (Option β)) (now : Instant) :
    ((Call.mk .setIfAbsent key lifetime).conclude c outcome now).answer =
      outcome.map fun value => .flag (storable? value lifetime).isSome := by
  cases outcome with
  | error fault => rfl
  | ok value =>
    exact congrArg (Except.ok ∘ Answer.flag ∘ Option.isSome)
      (Store.putNew_fst_fst c.store key value lifetime now)

/-- Who brings its value with it does in one section what others do with a loader. -/
theorem Shows.perform_setIfAbsent (h : c.Shows key row) (value : Option β) (lifetime : Lifetime)
    (now : Instant) :
    c.perform (.setIfAbsent key value lifetime) now =
      if (Rows.value? row now).isSome then ⟨c.settle, .ok (.flag false), []⟩
      else (Call.mk .setIfAbsent key lifetime).conclude c.settle (.ok value) now := by
  have hsome := congrArg Option.isSome (h.settle.value_eq now)
  rw [Option.isSome_map] at hsome
  simp only [Cache.perform, Cache.setIfAbsent, writing, h.isOpen, Bool.false_eq_true, if_false,
    hsome]
  split <;> rfl

end Cache

end ExpiringCache
