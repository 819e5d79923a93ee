import ExpiringCache.Proofs.Consistency

/-!
# Purging and making room

An insert that finds no room removes the expired entries first, and the entries unused for the
longest time after that.

1. **Purging** (`Store.getElem?_purgeDue`, `Store.getElem?_purgeAll`): only expired entries go, and
   without a limit all of them do; the number of deadlines taken is the number of entries counted
   as expired.
2. **Evicting** (`Store.evictDown_of_not_fits`): one round removes the key before all others.
3. **Making room** (`Store.MadeRoom`): what is left when a store with at most one entry too many
   has made room. There is a victim exactly if more entries are live than the capacity allows; it
   is one, and it is the live entry unused for the longest time.
-/

namespace ExpiringCache

namespace Store

variable {α β : Type} [Ord α] [Std.TransOrd α]

/-- Where a key stands in the order of use. -/
def position? (s : Store α β) (key : α) : Option Nat := s.entries[key]?.bind (·.position)

/-- Both keys are stored, and the first was used before the second. -/
def Before (s : Store α β) (a b : α) : Prop :=
  ∃ p q, s.position? a = some p ∧ s.position? b = some q ∧ p < q

variable {s : Store α β} {key k : α} {now : Instant}

/-! ## Dropping expired entries -/

theorem dropExpired_cases (now : Instant) (s : Store α β) (key : α) :
    dropExpired now s key = s ∨
      ∃ e, s.entries[key]? = some e ∧ e.isExpiredAt now = true ∧
        dropExpired now s key =
          { s with
            entries := s.entries.erase key
            recency := e.position.elim s.recency fun position => (s.recency.remove position).2
            tally := s.tally.expire 1 } := by
  cases he : s.entries[key]? with
  | none => exact .inl (by simp [dropExpired, he])
  | some e =>
    by_cases hx : e.isExpiredAt now = true
    · exact .inr ⟨e, rfl, hx, by simp [dropExpired, he, hx]⟩
    · exact .inl (by simp [dropExpired, he, hx])

theorem deadlines_dropExpired : (dropExpired now s key).deadlines = s.deadlines := by
  rcases dropExpired_cases now s key with h | ⟨e, -, -, h⟩ <;> rw [h]

theorem capacity_dropExpired :
    (dropExpired now s key).recency.capacity = s.recency.capacity := by
  rcases dropExpired_cases now s key with h | ⟨e, -, -, h⟩
  · rw [h]
  · rw [h]
    cases e.position <;> rfl

theorem next_dropExpired : (dropExpired now s key).recency.next = s.recency.next := by
  rcases dropExpired_cases now s key with h | ⟨e, -, -, h⟩
  · rw [h]
  · rw [h]
    cases e.position <;> rfl

theorem size_dropExpired_le : (dropExpired now s key).entries.size ≤ s.entries.size := by
  rcases dropExpired_cases now s key with h | ⟨e, -, -, h⟩
  · exact Nat.le_of_eq (by rw [h])
  · rw [h]
    exact Std.ExtTreeMap.size_erase_le

variable [Std.LawfulEqOrd α]

theorem ranked_dropExpired (h : Ranked s.entries s.recency) :
    Ranked (dropExpired now s key).entries (dropExpired now s key).recency := by
  rcases dropExpired_cases now s key with hs | ⟨e, he, -, hs⟩
  · rwa [hs]
  · rw [hs]
    exact h.erase he

theorem getElem?_dropExpired_self :
    (dropExpired now s key).entries[key]? = s.live? key now := by
  cases he : s.entries[key]? with
  | none => simp [dropExpired, he, live?]
  | some e =>
    by_cases hx : e.isExpiredAt now = true <;>
      simp [dropExpired, he, hx, live?, Entry.isLiveAt, Option.filter]

theorem getElem?_dropExpired_of_ne (hk : k ≠ key) :
    (dropExpired now s key).entries[k]? = s.entries[k]? := by
  rcases dropExpired_cases now s key with hs | ⟨e, he, -, hs⟩
  · rw [hs]
  · rw [hs, getElem?_erase_of_ne hk]

/-! ## Purging -/

/-- What one batch of keys leaves: those of the batch only if they are live. -/
theorem getElem?_dropAll (now : Instant) (keys : List α) (s : Store α β) (k : α) :
    (k ∈ keys → (keys.foldl (dropExpired now) s).entries[k]? = s.live? k now) ∧
      (k ∉ keys → (keys.foldl (dropExpired now) s).entries[k]? = s.entries[k]?) := by
  induction keys generalizing s with
  | nil => simp
  | cons key keys ih =>
    obtain ⟨hin, hout⟩ := ih (dropExpired now s key)
    simp only [List.foldl_cons, List.mem_cons, not_or]
    by_cases hk : k = key
    · subst hk
      refine ⟨fun _ => ?_, fun h => absurd rfl h.1⟩
      -- if the key comes again, nothing more happens to it
      by_cases hmem : k ∈ keys
      · rw [hin hmem, live?, getElem?_dropExpired_self, live?]
        cases s.entries[k]? with
        | none => rfl
        | some e => by_cases hl : e.isLiveAt now = true <;> simp [Option.filter, hl]
      · rw [hout hmem, getElem?_dropExpired_self]
    · have hsame : (dropExpired now s key).entries[k]? = s.entries[k]? :=
        getElem?_dropExpired_of_ne hk
      constructor
      · rintro (h | h)
        · exact absurd h hk
        · rw [hin h, live?, live?, hsame]
      · rintro ⟨-, h⟩
        rw [hout h, hsame]

theorem ranked_dropAll {keys : List α} (h : Ranked s.entries s.recency) :
    Ranked (keys.foldl (dropExpired now) s).entries (keys.foldl (dropExpired now) s).recency := by
  induction keys generalizing s with
  | nil => exact h
  | cons key keys ih => exact ih (ranked_dropExpired h)

omit [Std.LawfulEqOrd α] in
theorem deadlines_dropAll {keys : List α} :
    (keys.foldl (dropExpired now) s).deadlines = s.deadlines := by
  induction keys generalizing s with
  | nil => rfl
  | cons key keys ih => rw [List.foldl_cons, ih, deadlines_dropExpired]

omit [Std.LawfulEqOrd α] in
theorem capacity_dropAll {keys : List α} :
    (keys.foldl (dropExpired now) s).recency.capacity = s.recency.capacity := by
  induction keys generalizing s with
  | nil => rfl
  | cons key keys ih => rw [List.foldl_cons, ih, capacity_dropExpired]

omit [Std.LawfulEqOrd α] in
theorem next_dropAll {keys : List α} :
    (keys.foldl (dropExpired now) s).recency.next = s.recency.next := by
  induction keys generalizing s with
  | nil => rfl
  | cons key keys ih => rw [List.foldl_cons, ih, next_dropExpired]

omit [Std.LawfulEqOrd α] in
theorem size_dropAll_le {keys : List α} :
    (keys.foldl (dropExpired now) s).entries.size ≤ s.entries.size := by
  induction keys generalizing s with
  | nil => exact Nat.le_refl _
  | cons key keys ih => exact Nat.le_trans ih size_dropExpired_le

/-- Different expired keys are counted one by one. -/
theorem tally_dropAll {keys : List α} (hnodup : keys.Nodup)
    (hexpired : ∀ key ∈ keys, ∃ e, s.entries[key]? = some e ∧ e.isExpiredAt now = true) :
    (keys.foldl (dropExpired now) s).tally = s.tally.expire keys.length := by
  induction keys generalizing s with
  | nil => simp [Tally.expire]
  | cons key keys ih =>
    obtain ⟨hnot, hnodup⟩ := List.nodup_cons.mp hnodup
    obtain ⟨e, he, hx⟩ := hexpired key List.mem_cons_self
    have htally : (dropExpired now s key).tally = s.tally.expire 1 := by
      simp [dropExpired, he, hx]
    rw [List.foldl_cons, ih hnodup, htally]
    · simp [Tally.expire, UInt64.add_assoc, UInt64.add_comm]
    · intro k hk
      have hne : k ≠ key := fun h => hnot (h ▸ hk)
      rw [getElem?_dropExpired_of_ne hne]
      exact hexpired k (List.mem_cons_of_mem _ hk)

/-- Different expired keys go one by one. -/
theorem size_dropAll {keys : List α} (hnodup : keys.Nodup)
    (hexpired : ∀ key ∈ keys, ∃ e, s.entries[key]? = some e ∧ e.isExpiredAt now = true) :
    (keys.foldl (dropExpired now) s).entries.size + keys.length = s.entries.size := by
  induction keys generalizing s with
  | nil => rfl
  | cons key keys ih =>
    obtain ⟨hnot, hnodup⟩ := List.nodup_cons.mp hnodup
    obtain ⟨e, he, hx⟩ := hexpired key List.mem_cons_self
    have hsize : (dropExpired now s key).entries.size + 1 = s.entries.size := by
      simp only [dropExpired, he, hx, if_true]
      exact size_erase_of_stored he
    have hrest := ih (s := dropExpired now s key) hnodup fun k hk => by
      have hne : k ≠ key := fun h => hnot (h ▸ hk)
      rw [getElem?_dropExpired_of_ne hne]
      exact hexpired k (List.mem_cons_of_mem _ hk)
    rw [List.foldl_cons, List.length_cons]
    omega

/-- Only keys whose deadline was taken go, and they are expired. -/
theorem Indexed.expired_of_taken (h : s.Indexed) {order : Arrangement α} {limit : Option Nat}
    (hk : k ∈ (s.deadlines.takeDue order now limit).1) :
    ∃ e, s.entries[k]? = some e ∧ e.isExpiredAt now = true := by
  rw [Deadlines.takeDue_fst] at hk
  obtain ⟨⟨t, k⟩, hp, rfl⟩ := List.mem_map.mp hk
  obtain ⟨hholds, hle⟩ := Deadlines.holds_of_mem_taken hp
  obtain ⟨e, he, ht⟩ := Option.bind_eq_some_iff.mp ((h.dated.holds_iff k t).mp hholds)
  exact ⟨e, he, Entry.isExpiredAt_iff.mpr ⟨t, ht, hle⟩⟩

/-- No key has its deadline taken twice. -/
theorem Indexed.nodup_takeDue (h : s.Indexed) (order : Arrangement α) (now : Instant)
    (limit : Option Nat) : (s.deadlines.takeDue order now limit).1.Nodup := by
  rw [Deadlines.takeDue_fst]
  exact h.dated.nodup_keys (s.deadlines.nodup_taken order now limit)
    fun _ hp => (Deadlines.holds_of_mem_taken hp).1

/-- An entry that a purge removes was expired. -/
theorem Indexed.getElem?_purgeDue (h : s.Indexed) (order : Arrangement α) (now : Instant)
    (limit : Option Nat) (k : α) :
    (s.purgeDue order now limit).2.entries[k]? = s.entries[k]? ∨
      (s.purgeDue order now limit).2.entries[k]? = none ∧ s.live? k now = none := by
  obtain ⟨hin, hout⟩ := getElem?_dropAll now (s.deadlines.takeDue order now limit).1
    { s with deadlines := (s.deadlines.takeDue order now limit).2 } k
  by_cases hk : k ∈ (s.deadlines.takeDue order now limit).1
  · obtain ⟨e, he, hx⟩ := h.expired_of_taken hk
    have hdead : s.live? k now = none := by simp [live?, he, Option.filter, Entry.isLiveAt, hx]
    exact .inr ⟨(hin hk).trans hdead, hdead⟩
  · exact .inl (hout hk)

/-- Without a limit a purge leaves the live entries and no other. -/
theorem Indexed.getElem?_purgeAll (h : s.Indexed) (order : Arrangement α) (now : Instant)
    (k : α) :
    (s.purgeDue order now none).2.entries[k]? = s.live? k now := by
  obtain ⟨hin, hout⟩ := getElem?_dropAll now (s.deadlines.takeDue order now none).1
    { s with deadlines := (s.deadlines.takeDue order now none).2 } k
  by_cases hk : k ∈ (s.deadlines.takeDue order now none).1
  · exact hin hk
  · refine (hout hk).trans ?_
    cases he : s.entries[k]? with
    | none => simp [live?, he]
    | some e =>
      have hlive : e.isLiveAt now = true := by
        rw [Entry.isLiveAt_iff]
        intro t ht
        -- an expired entry would have had its deadline taken
        by_contra hle
        rw [Instant.lt_def, Int.not_lt, ← Instant.le_def] at hle
        refine hk (List.mem_map.mpr ⟨(t, k), Deadlines.mem_due.mpr ⟨?_, hle⟩, rfl⟩)
        rw [h.dated.holds_iff, he, Option.bind_some, ht]
      simp [live?, he, Option.filter, hlive]

omit [Std.LawfulEqOrd α] in
@[simp] theorem capacity_purgeDue (order : Arrangement α) (now : Instant) (limit : Option Nat) :
    (s.purgeDue order now limit).2.recency.capacity = s.recency.capacity :=
  capacity_dropAll

omit [Std.LawfulEqOrd α] in
theorem deadlines_purgeDue (order : Arrangement α) (now : Instant) (limit : Option Nat) :
    (s.purgeDue order now limit).2.deadlines = (s.deadlines.takeDue order now limit).2 :=
  deadlines_dropAll

omit [Std.LawfulEqOrd α] in
theorem purgeDue_fst (order : Arrangement α) (now : Instant) (n : Nat) :
    (s.purgeDue order now (some n)).1 = min n (s.deadlines.countDue now) :=
  Deadlines.length_takeDue ..

omit [Std.LawfulEqOrd α] in
/-- A limit that is not reached is none. -/
theorem purgeDue_of_countDue_le {n : Nat} (h : s.deadlines.countDue now ≤ n)
    (order : Arrangement α) : s.purgeDue order now (some n) = s.purgeDue order now none := by
  rw [purgeDue, Deadlines.takeDue_of_countDue_le h]
  rfl

theorem countDue_purgeDue (order : Arrangement α) (now : Instant) (n : Nat) :
    (s.purgeDue order now (some n)).2.deadlines.countDue now = s.deadlines.countDue now - n := by
  rw [deadlines_purgeDue, Deadlines.countDue_takeDue]

/-- No purge at this moment or before makes a difference to what is live. -/
theorem Indexed.live?_purgeDue (h : s.Indexed) (order : Arrangement α) {earlier : Instant}
    (hle : earlier ≤ now) (limit : Option Nat) (k : α) :
    (s.purgeDue order earlier limit).2.live? k now = s.live? k now := by
  rcases h.getElem?_purgeDue order earlier limit k with hsame | ⟨hgone, hdead⟩
  · rw [live?, hsame, live?]
  · rw [live?, hgone]
    cases hlive : s.live? k now with
    | none => rfl
    | some e =>
      obtain ⟨he, hl⟩ := live?_eq_some_iff.mp hlive
      rw [live?_eq_some_iff.mpr ⟨he, Entry.isLiveAt_of_le hle hl⟩] at hdead
      cases hdead

theorem Indexed.purgeDue (h : s.Indexed) (order : Arrangement α) (now : Instant)
    (limit : Option Nat) : (s.purgeDue order now limit).2.Indexed := by
  have hranked : Ranked (s.purgeDue order now limit).2.entries
      (s.purgeDue order now limit).2.recency :=
    ranked_dropAll (s := { s with deadlines := (s.deadlines.takeDue order now limit).2 }) h.ranked
  refine ⟨⟨?_, fun k t => ?_⟩, hranked⟩
  · rw [deadlines_purgeDue]
    exact h.dated.wellFormed.takeDue order now limit
  · obtain ⟨hin, hout⟩ := getElem?_dropAll now (s.deadlines.takeDue order now limit).1
      { s with deadlines := (s.deadlines.takeDue order now limit).2 } k
    rw [deadlines_purgeDue, Deadlines.holds_takeDue, h.dated.holds_iff]
    by_cases hk : k ∈ (s.deadlines.takeDue order now limit).1
    · -- the key had one deadline, which was taken, and its entry went with it
      obtain ⟨e, he, hx⟩ := h.expired_of_taken hk
      have hgone : (s.purgeDue order now limit).2.entries[k]? = none :=
        (hin hk).trans (by simp [live?, he, Option.filter, Entry.isLiveAt, hx])
      rw [Deadlines.takeDue_fst] at hk
      obtain ⟨⟨u, k⟩, hp, rfl⟩ := List.mem_map.mp hk
      have hu := (h.dated.holds_iff k u).mp (Deadlines.holds_of_mem_taken hp).1
      simp only [hgone, Option.bind_none, reduceCtorEq, iff_false, not_and, not_not]
      intro ht
      rw [hu] at ht
      exact Option.some.inj ht ▸ hp
    · have hsame : (s.purgeDue order now limit).2.entries[k]? = s.entries[k]? := hout hk
      rw [hsame]
      refine ⟨fun ht => ht.1, fun ht => ⟨ht, fun hp => hk ?_⟩⟩
      rw [Deadlines.takeDue_fst]
      exact List.mem_map.mpr ⟨_, hp, rfl⟩

/-- Every deadline taken is an entry counted as expired. -/
theorem Indexed.tally_purgeDue (h : s.Indexed) (order : Arrangement α) (now : Instant)
    (limit : Option Nat) :
    (s.purgeDue order now limit).2.tally = s.tally.expire (s.purgeDue order now limit).1 :=
  tally_dropAll (s := { s with deadlines := (s.deadlines.takeDue order now limit).2 })
    (h.nodup_takeDue order now limit) fun _ hk => h.expired_of_taken hk

/-- Every deadline taken is an entry removed. -/
theorem Indexed.size_purgeDue (h : s.Indexed) (order : Arrangement α) (now : Instant)
    (limit : Option Nat) :
    (s.purgeDue order now limit).2.entries.size + (s.purgeDue order now limit).1 =
      s.entries.size :=
  size_dropAll (s := { s with deadlines := (s.deadlines.takeDue order now limit).2 })
    (h.nodup_takeDue order now limit) fun _ hk => h.expired_of_taken hk

omit [Std.LawfulEqOrd α] in
@[simp] theorem next_purgeDue (order : Arrangement α) (now : Instant) (limit : Option Nat) :
    (s.purgeDue order now limit).2.recency.next = s.recency.next :=
  next_dropAll

omit [Std.LawfulEqOrd α] in
theorem size_purgeDue_le {order : Arrangement α} {limit : Option Nat} :
    (s.purgeDue order now limit).2.entries.size ≤ s.entries.size :=
  size_dropAll_le

/-! ## Evicting -/

omit [Std.TransOrd α] [Std.LawfulEqOrd α] in
theorem fits_iff :
    s.fits = true ↔ s.recency.capacity = 0 ∨ s.entries.size ≤ s.recency.capacity := by
  simp [fits, Recency.isBounded]

omit [Std.LawfulEqOrd α] in
theorem evictDown_of_fits (h : s.fits = true) (fuel : Nat) : evictDown fuel s = ([], s) := by
  cases fuel <;> simp [evictDown, h]

omit [Std.LawfulEqOrd α] in
/-- Where an order of use is kept and something is stored, some key comes before all others. -/
theorem Indexed.exists_first (h : s.Indexed) (bounded : 0 < s.recency.capacity)
    (hne : s.entries ≠ ∅) :
    ∃ p victim, s.recency.first? = some (p, victim) ∧
      ∀ k e, s.entries[k]? = some e → k ≠ victim → s.Before victim k := by
  cases hf : s.recency.first? with
  | none =>
    -- an order without a first key is empty, and every entry has its place in it
    rw [Recency.first?_eq_none_iff] at hf
    refine absurd (Std.ExtTreeMap.eq_empty_iff_forall_not_mem.mpr fun k hk => ?_) hne
    rw [Std.ExtTreeMap.mem_iff_isSome_getElem?, Option.isSome_iff_exists] at hk
    obtain ⟨e, he⟩ := hk
    obtain ⟨p, -, hp⟩ := h.ranked.position bounded he
    simp [hf] at hp
  | some found =>
    obtain ⟨p, victim⟩ := found
    obtain ⟨hp, hmin⟩ := Recency.first?_eq_some_iff.mp hf
    refine ⟨p, victim, rfl, fun k e he hk => ?_⟩
    obtain ⟨q, heq, hq⟩ := h.ranked.position bounded he
    refine ⟨p, q, (h.ranked.order_iff p victim).mp hp, (h.ranked.order_iff q k).mp hq, ?_⟩
    have hle : p ≤ q := hmin q (by simp [Std.ExtTreeMap.mem_iff_isSome_getElem?, hq])
    refine Nat.lt_of_le_of_ne hle fun hpq => hk ?_
    rw [← hpq, hp] at hq
    exact (Option.some.inj hq).symm

omit [Std.LawfulEqOrd α] in
/-- While there is no room, evicting removes the key that comes before all others. -/
theorem Indexed.evictDown_of_not_fits (h : s.Indexed) (hfits : ¬ s.fits = true) :
    ∃ victim e, s.entries[victim]? = some e ∧
      (∀ k e, s.entries[k]? = some e → k ≠ victim → s.Before victim k) ∧
      ∀ fuel, evictDown (fuel + 1) s =
        (victim :: (evictDown fuel (s.remove victim).2).1,
          (evictDown fuel (s.remove victim).2).2) := by
  rw [fits_iff, not_or, Nat.not_le] at hfits
  have hne : s.entries ≠ ∅ := by
    intro h0
    rw [h0, Std.ExtTreeMap.size_empty] at hfits
    omega
  obtain ⟨p, victim, hf, hfirst⟩ := h.exists_first (by omega) hne
  obtain ⟨e, he, hpos⟩ := h.ranked.entry (Recency.first?_eq_some_iff.mp hf).1
  refine ⟨victim, e, he, hfirst, fun fuel => ?_⟩
  have hfits : s.fits = false := by
    rw [← Bool.not_eq_true, fits_iff]
    omega
  simp only [evictDown, hfits, Bool.false_eq_true, if_false, Recency.evictOldest?, hf,
    Option.map_some, he, Store.remove, hpos, Option.elim_some, Recency.remove]

/-! ## Making room -/

/-- What making room at `now` leaves of the store `s`, at the cost of `victims`. -/
structure MadeRoom (s : Store α β) (now : Instant) (victims : List α) (t : Store α β) :
    Prop where
  indexed : t.Indexed
  fits : t.fits = true
  capacity_eq : t.recency.capacity = s.recency.capacity
  entry_of : ∀ (k : α) (e : Entry β), t.entries[k]? = some e → s.entries[k]? = some e
  live_eq : ∀ k, k ∉ victims → t.live? k now = s.live? k now
  victim_gone : ∀ k ∈ victims, t.entries[k]? = none
  none_of_le : s.recency.capacity = 0 ∨ (s.liveEntries now).length ≤ s.recency.capacity →
    victims = []
  one_of_lt : 0 < s.recency.capacity → s.recency.capacity < (s.liveEntries now).length →
    ∃ victim, victims = [victim] ∧ (s.live? victim now).isSome = true ∧
      ∀ k, k ≠ victim → (s.live? k now).isSome = true → s.Before victim k
  hits_eq : t.tally.hits = s.tally.hits
  misses_eq : t.tally.misses = s.tally.misses
  evictions_eq : t.tally.evictions = s.tally.evictions + UInt64.ofNat victims.length

theorem Indexed.entries_purgeAll (h : s.Indexed) (order : Arrangement α) (now : Instant) :
    (s.purgeDue order now none).2.entries = s.entries.filter fun _ e => e.isLiveAt now := by
  apply Std.ExtTreeMap.ext_getElem?
  intro k
  rw [h.getElem?_purgeAll order now, Std.ExtTreeMap.getElem?_filter', live?]

theorem Indexed.size_purgeAll (h : s.Indexed) (order : Arrangement α) (now : Instant) :
    (s.purgeDue order now none).2.entries.size = (s.liveEntries now).length := by
  rw [h.entries_purgeAll, ← Std.ExtTreeMap.length_toList, Std.ExtTreeMap.toList_filter, liveEntries]

omit [Std.LawfulEqOrd α] in
theorem length_liveEntries_le (s : Store α β) (now : Instant) :
    (s.liveEntries now).length ≤ s.entries.size := by
  rw [← Std.ExtTreeMap.length_toList]
  exact List.length_filter_le _ _

omit [Std.LawfulEqOrd α] in
/-- Purging may make all the room that is needed. -/
theorem evictOverflow_of_purged {t : Store α β} (hfits : ¬ s.fits = true)
    (ht : (s.purgeDue .asListed now none).2 = t) (hpurged : t.fits = true) :
    s.evictOverflow now = ([], t) := by
  rw [evictOverflow, if_neg hfits, ht]
  simp [evictDown_of_fits hpurged, Tally.evict]

omit [Std.LawfulEqOrd α] in
/-- If one entry is too many after purging, the key before all others makes room for it. -/
theorem evictOverflow_of_not_purged {t : Store α β} (hfits : ¬ s.fits = true)
    (ht : (s.purgeDue .asListed now none).2 = t) (h : t.Indexed) (hpurged : ¬ t.fits = true)
    (hsize : t.entries.size ≤ t.recency.capacity + 1) :
    ∃ victim e, t.entries[victim]? = some e ∧
      (∀ k e, t.entries[k]? = some e → k ≠ victim → t.Before victim k) ∧
      (t.remove victim).2.fits = true ∧
      s.evictOverflow now =
        ([victim], { (t.remove victim).2 with tally := t.tally.evict 1 }) := by
  obtain ⟨victim, e, he, hfirst, hround⟩ := h.evictDown_of_not_fits hpurged
  have hroom : (t.remove victim).2.fits = true := by
    rw [fits_iff, capacity_remove, size_remove he]
    omega
  -- the victim has its place in the order, so there is fuel for one round
  obtain ⟨fuel, hfuel⟩ : ∃ fuel, t.recency.size = fuel + 1 := by
    rw [fits_iff] at hpurged
    obtain ⟨p, -, hp⟩ := h.ranked.position (by omega) he
    refine Nat.exists_eq_succ_of_ne_zero fun h0 => ?_
    rw [Recency.size, ← Std.ExtTreeMap.eq_empty_iff_size_eq_zero] at h0
    simp [h0] at hp
  refine ⟨victim, e, he, hfirst, hroom, ?_⟩
  have hdown : evictDown t.recency.size t = ([victim], (t.remove victim).2) := by
    rw [hfuel, hround, evictDown_of_fits hroom]
  rw [evictOverflow, if_neg hfits, ht]
  simp [hdown]

/-- Making room in a store with at most one entry too many. -/
theorem Indexed.madeRoom (h : s.Indexed)
    (hsize : s.recency.capacity = 0 ∨ s.entries.size ≤ s.recency.capacity + 1)
    (now : Instant) : MadeRoom s now (s.evictOverflow now).1 (s.evictOverflow now).2 := by
  have hle := length_liveEntries_le s now
  by_cases hfits : s.fits = true
  · -- there is room already
    rw [show s.evictOverflow now = ([], s) by simp [evictOverflow, hfits]]
    refine ⟨h, hfits, rfl, fun _ _ he => he, fun _ _ => rfl, by simp, fun _ => rfl, ?_, rfl, rfl,
      by simp⟩
    intro hpos hlt
    rw [fits_iff] at hfits
    omega
  · have hindexed := h.purgeDue .asListed now none
    have htally := h.tally_purgeDue .asListed now none
    have hcap : (s.purgeDue .asListed now none).2.recency.capacity = s.recency.capacity := by simp
    have hlen := h.size_purgeAll .asListed now
    have hget := h.getElem?_purgeAll .asListed now
    have hlive := h.live?_purgeDue .asListed (Instant.le_refl now) none
    generalize ht : (s.purgeDue .asListed now none).2 = t at hindexed htally hcap hlen hget hlive
    have hentry : ∀ k e, t.entries[k]? = some e → s.entries[k]? = some e := fun k e he =>
      (live?_eq_some_iff.mp ((hget k).symm.trans he)).1
    by_cases hpurged : t.fits = true
    · -- the expired entries made room
      rw [evictOverflow_of_purged hfits ht hpurged]
      refine ⟨hindexed, hpurged, hcap, hentry, fun k _ => hlive k, by simp, fun _ => rfl, ?_, ?_,
        ?_, ?_⟩
      · intro hpos hlt
        rw [fits_iff] at hpurged
        omega
      all_goals simp [htally, Tally.expire]
    · -- one live entry has to go
      rw [fits_iff] at hfits hpurged
      obtain ⟨victim, e, he, hfirst, hroom, heq⟩ := evictOverflow_of_not_purged
        (by rw [fits_iff]; exact hfits) ht hindexed (by rw [fits_iff]; exact hpurged) (by omega)
      rw [heq]
      refine ⟨(hindexed.remove victim).tallied _, hroom, ?_, ?_, ?_, ?_, ?_, ?_, ?_, ?_, ?_⟩
      · show (t.remove victim).2.recency.capacity = _
        rw [capacity_remove, hcap]
      · intro k e' he'
        by_cases hk : k = victim
        · subst hk
          simp [getElem?_remove_self] at he'
        · exact hentry k e' (by rwa [getElem?_remove_of_ne hk] at he')
      · intro k hk
        have hne : k ≠ victim := by simpa using hk
        show ((t.remove victim).2.entries[k]?).filter _ = _
        rw [getElem?_remove_of_ne hne]
        exact hlive k
      · intro k hk
        rw [List.mem_singleton.mp hk]
        exact getElem?_remove_self
      · intro hroom'
        omega
      · intro hpos hlt
        refine ⟨victim, rfl, by rw [← hget, he]; rfl, fun k hk hlivek => ?_⟩
        obtain ⟨e', he'⟩ := Option.isSome_iff_exists.mp hlivek
        obtain ⟨p, q, hp, hq, hpq⟩ := hfirst k e' (by rw [hget, he']) hk
        -- neither of the two was purged, so they stood in the same places before
        refine ⟨p, q, ?_, ?_, hpq⟩
        · rw [position?, he] at hp
          rw [position?, hentry victim e he, hp]
        · rw [position?, hget, he'] at hq
          rw [position?, (live?_eq_some_iff.mp he').1, hq]
      all_goals simp [htally, Tally.expire, Tally.evict]

omit [Std.LawfulEqOrd α] in
/-- There is one victim at most. It is live and was used before all others that are, of which there
are too many. -/
theorem MadeRoom.of_mem_victims {victims : List α} {t : Store α β} (h : MadeRoom s now victims t)
    (hk : k ∈ victims) :
    victims = [k] ∧
      (0 < s.recency.capacity ∧ s.recency.capacity < (s.liveEntries now).length) ∧
      (s.live? k now).isSome = true ∧
      ∀ other, other ≠ k → (s.live? other now).isSome = true → s.Before k other := by
  have hmany : ¬ (s.recency.capacity = 0 ∨
      (s.liveEntries now).length ≤ s.recency.capacity) := by
    intro hfits
    rw [h.none_of_le hfits] at hk
    cases hk
  obtain ⟨victim, rfl, hlive, hfirst⟩ := h.one_of_lt (by omega) (by omega)
  obtain rfl := List.mem_singleton.mp hk
  exact ⟨rfl, by omega, hlive, hfirst⟩

/-- What goes and is no victim is counted as expired. -/
theorem Indexed.size_evictOverflow (h : s.Indexed)
    (hsize : s.recency.capacity = 0 ∨ s.entries.size ≤ s.recency.capacity + 1) (now : Instant) :
    ∃ n, (s.evictOverflow now).2.tally.expired = s.tally.expired + UInt64.ofNat n ∧
      (s.evictOverflow now).2.entries.size + (s.evictOverflow now).1.length + n =
        s.entries.size := by
  by_cases hfits : s.fits = true
  · rw [show s.evictOverflow now = ([], s) by simp [evictOverflow, hfits]]
    exact ⟨0, (UInt64.add_zero _).symm, rfl⟩
  · have hindexed := h.purgeDue .asListed now none
    have htally := h.tally_purgeDue .asListed now none
    have hcap : (s.purgeDue .asListed now none).2.recency.capacity = s.recency.capacity := by simp
    have hpurge := h.size_purgeDue .asListed now none
    generalize (s.purgeDue .asListed now none).1 = n at htally hpurge
    generalize ht : (s.purgeDue .asListed now none).2 = t at hindexed htally hcap hpurge
    have hexpired : t.tally.expired = s.tally.expired + UInt64.ofNat n := by rw [htally]; rfl
    refine ⟨n, ?_⟩
    by_cases hpurged : t.fits = true
    · rw [evictOverflow_of_purged hfits ht hpurged]
      exact ⟨hexpired, hpurge⟩
    · rw [fits_iff] at hfits hpurged
      obtain ⟨victim, e, he, -, -, heq⟩ := evictOverflow_of_not_purged
        (by rw [fits_iff]; exact hfits) ht hindexed (by rw [fits_iff]; exact hpurged) (by omega)
      have hremove := size_remove he
      rw [heq]
      refine ⟨hexpired, ?_⟩
      show (t.remove victim).2.entries.size + 1 + n = _
      omega

end Store

end ExpiringCache
