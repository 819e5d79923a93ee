import ExpiringCache.Proofs.Fate

/-!
# Every entry is accounted for

The counters of a cache are added to in many places: an insert may purge several entries and evict
one, a sweep purges in batches, and what callers delete is not counted at all. Here the books are
kept a second time, by what becomes of the keys, and the two agree.

1. **Losses** (`Store.losses`): the keys that a deed takes out of the store, each with a reason.
   They are all the keys that go, no key goes for two reasons, and the reason is the right one
   (`Store.Consistent.accounted`).
2. **Entries** (`Store.Booked`): what was counted and lost between two stores. Deeds one after the
   other are booked together (`Booked.append`).
3. **Lookups** (`Cache.found`): what the lookups of callers find, each counted once.
4. **Who asked** (`Cache.Traced`): entries are deleted or dropped for callers who ask for it only.
5. **Runs** (`Cache.Balanced`): the counters and the number of entries after any run.
-/

namespace ExpiringCache

/-- Why an entry is no longer stored. -/
inductive Reason where
  /-- It was live, and made room for another. -/
  | evicted
  /-- It was found expired. -/
  | expired
  /-- A caller had its key deleted. -/
  | deleted
  /-- It was dropped together with all others. -/
  | dropped
deriving DecidableEq

variable {α β : Type}

/-- How many entries went for this reason. -/
def Reason.count (reason : Reason) (losses : List (α × Reason)) : Nat :=
  losses.countP fun loss => decide (loss.2 = reason)

/-- What a lookup found, if the deed counts one. -/
def Deed.found? : Deed α β → Option Bool
  | .hit _ => some true
  | .miss => some false
  | .touch _ | .insert _ _ _ _ | .remove _ | .replace _ _ | .extend _ _ _ | .purge _ _ _ | .reset =>
    none

namespace Reason

variable {reason r : Reason}

@[simp] theorem count_append (losses more : List (α × Reason)) :
    reason.count (losses ++ more) = reason.count losses + reason.count more :=
  List.countP_append ..

@[simp] theorem count_map_self (keys : List α) :
    reason.count (keys.map fun k => (k, reason)) = keys.length := by
  simp [count]

theorem count_map_of_ne (h : r ≠ reason) (keys : List α) :
    reason.count (keys.map fun k => (k, r)) = 0 := by
  simp [count, h]

/-- There are four reasons to go. -/
theorem length_eq_add (losses : List (α × Reason)) :
    losses.length = evicted.count losses + expired.count losses + deleted.count losses +
      dropped.count losses := by
  induction losses with
  | nil => rfl
  | cons loss losses ih =>
    obtain ⟨k, reason⟩ := loss
    simp only [count, List.countP_cons, List.length_cons] at ih ⊢
    cases reason <;> simp <;> omega

end Reason

namespace Store

variable [Ord α] [Std.TransOrd α]

/-- The entries while a deed is done: an insert writes its own before it makes room. -/
def during (s : Store α β) : Deed α β → Std.ExtTreeMap α (Entry β)
  | .insert key value lifetime now => (s.write key value lifetime now).entries
  | .miss | .hit _ | .touch _ | .remove _ | .replace _ _ | .extend _ _ _ | .purge _ _ _ | .reset =>
    s.entries

/-- The deed stores a key that was not stored. -/
def adds (s : Store α β) : Deed α β → Bool
  | .insert key _ _ _ => !s.entries.contains key
  | .miss | .hit _ | .touch _ | .remove _ | .replace _ _ | .extend _ _ _ | .purge _ _ _ | .reset =>
    false

/-- The keys of the entries that are expired at `now` and that `left` does not have. -/
def expiredKeys (entries : Std.ExtTreeMap α (Entry β)) (now : Instant) (left : Store α β) :
    List α :=
  (entries.toList.filter fun pair =>
    pair.2.isExpiredAt now && !left.entries.contains pair.1).map (·.1)

/-- What is lost where `victims` are evicted and expired entries purged, and `left` is left. -/
def lost (entries : Std.ExtTreeMap α (Entry β)) (now : Instant) (victims : List α)
    (left : Store α β) : List (α × Reason) :=
  victims.map (fun k => (k, .evicted)) ++
    (expiredKeys entries now left).map fun k => (k, .expired)

/-- The keys that a deed takes out of the store, each with the reason. -/
def losses (s : Store α β) : Deed α β → List (α × Reason)
  | .insert key value lifetime now =>
    let done := s.insert key value lifetime now
    lost (s.write key value lifetime now).entries now done.1 done.2
  | .purge order now limit => lost s.entries now [] (s.purgeDue order now (some limit)).2
  | .remove key => if s.entries.contains key then [(key, .deleted)] else []
  | .reset => s.entries.keys.map fun k => (k, .dropped)
  | .miss | .hit _ | .touch _ | .replace _ _ | .extend _ _ _ => []

/-- What is true where a deed takes `key` out of the store for this reason. -/
def Explains (s : Store α β) (deed : Deed α β) (key : α) : Reason → Prop
  | .evicted => ∃ now e, deed.purges? = some now ∧ (s.during deed)[key]? = some e ∧
      e.isLiveAt now = true
  | .expired => ∃ now e, deed.purges? = some now ∧ (s.during deed)[key]? = some e ∧
      e.isExpiredAt now = true
  | .deleted => deed = .remove key
  | .dropped => deed = .reset

/-- The losses of a deed are what it takes out of the store, and what it counts. -/
structure Accounted (s : Store α β) (deed : Deed α β) : Prop where
  /-- A key goes if and only if it goes for some reason. -/
  mem_iff : ∀ k, k ∈ (s.losses deed).map (·.1) ↔
    (∃ e, (s.during deed)[k]? = some e) ∧ (s.after deed).entries[k]? = none
  /-- It goes for one reason only. -/
  nodup : ((s.losses deed).map (·.1)).Nodup
  explains : ∀ k reason, (k, reason) ∈ s.losses deed → s.Explains deed k reason
  evictions_eq : (s.after deed).tally.evictions =
    s.tally.evictions + UInt64.ofNat (Reason.evicted.count (s.losses deed))
  expired_eq : (s.after deed).tally.expired =
    s.tally.expired + UInt64.ofNat (Reason.expired.count (s.losses deed))
  size_eq : (s.after deed).entries.size + (s.losses deed).length =
    s.entries.size + if s.adds deed then 1 else 0

variable {s t : Store α β} {key k : α} {now : Instant} {deed : Deed α β}

/-! ## Keys that go -/

theorem contains_eq_false_iff {m : Std.ExtTreeMap α (Entry β)} :
    m.contains k = false ↔ m[k]? = none := by
  rw [Std.ExtTreeMap.contains_eq_isSome_getElem?, Option.isSome_eq_false_iff,
    Option.isNone_iff_eq_none]

variable [Std.LawfulEqOrd α]

theorem mem_keys_iff {m : Std.ExtTreeMap α (Entry β)} :
    k ∈ m.keys ↔ ∃ e : Entry β, m[k]? = some e := by
  rw [Std.ExtTreeMap.mem_keys, Std.ExtTreeMap.mem_iff_isSome_getElem?, Option.isSome_iff_exists]

theorem mem_expiredKeys {entries : Std.ExtTreeMap α (Entry β)} :
    k ∈ expiredKeys entries now t ↔
      (∃ e : Entry β, entries[k]? = some e ∧ e.isExpiredAt now = true) ∧
        t.entries[k]? = none := by
  simp only [expiredKeys, List.mem_map, List.mem_filter, Bool.and_eq_true, Bool.not_eq_true',
    contains_eq_false_iff]
  constructor
  · rintro ⟨⟨k, e⟩, ⟨hmem, hx, hgone⟩, rfl⟩
    exact ⟨⟨e, Std.ExtTreeMap.mem_toList_iff_getElem?_eq_some.mp hmem, hx⟩, hgone⟩
  · rintro ⟨⟨e, he, hx⟩, hgone⟩
    exact ⟨(k, e), ⟨Std.ExtTreeMap.mem_toList_iff_getElem?_eq_some.mpr he, hx, hgone⟩, rfl⟩

theorem nodup_expiredKeys (entries : Std.ExtTreeMap α (Entry β)) :
    (expiredKeys entries now t).Nodup :=
  nodup_keys_filter entries _

/-- Where nothing is added, what is left and what is gone make up what there was. -/
theorem size_add_length {m left : Std.ExtTreeMap α (Entry β)} {gone : List α}
    (hnodup : gone.Nodup)
    (hgone : ∀ k, k ∈ gone ↔ (∃ e : Entry β, m[k]? = some e) ∧ left[k]? = none)
    (hleft : ∀ (k : α) (e : Entry β), left[k]? = some e → ∃ e : Entry β, m[k]? = some e) :
    left.size + gone.length = m.size := by
  have hperm : m.keys.Perm (left.keys ++ gone) := by
    refine (List.perm_ext_iff_of_nodup Std.ExtTreeMap.nodup_keys ?_).mpr fun k => ?_
    · refine List.Nodup.append Std.ExtTreeMap.nodup_keys hnodup fun k hk hkgone => ?_
      obtain ⟨e, he⟩ := mem_keys_iff.mp hk
      rw [((hgone k).mp hkgone).2] at he
      cases he
    · rw [List.mem_append, mem_keys_iff, mem_keys_iff, hgone]
      cases hk : left[k]? with
      | none => simp
      | some e => simpa [hk] using hleft k e hk
  have hlength := hperm.length_eq
  rw [List.length_append, Std.ExtTreeMap.length_keys, Std.ExtTreeMap.length_keys] at hlength
  exact hlength.symm

/-! ## One deed -/

/-- A deed is accounted for if its losses are what goes while it is done. -/
theorem accounted_of_mem_iff
    (hmem : ∀ k, k ∈ (s.losses deed).map (·.1) ↔
      (∃ e : Entry β, (s.during deed)[k]? = some e) ∧ (s.after deed).entries[k]? = none)
    (hnodup : ((s.losses deed).map (·.1)).Nodup)
    (hexplains : ∀ k reason, (k, reason) ∈ s.losses deed → s.Explains deed k reason)
    (hleft : ∀ (k : α) (e : Entry β), (s.after deed).entries[k]? = some e →
      ∃ e : Entry β, (s.during deed)[k]? = some e)
    (hduring : (s.during deed).size = s.entries.size + if s.adds deed then 1 else 0)
    (hevictions : (s.after deed).tally.evictions =
      s.tally.evictions + UInt64.ofNat (Reason.evicted.count (s.losses deed)))
    (hexpired : (s.after deed).tally.expired =
      s.tally.expired + UInt64.ofNat (Reason.expired.count (s.losses deed))) :
    Accounted s deed where
  mem_iff := hmem
  nodup := hnodup
  explains := hexplains
  evictions_eq := hevictions
  expired_eq := hexpired
  size_eq := by
    rw [← hduring, ← size_add_length hnodup hmem hleft, List.length_map]

/-- A deed that keeps the keys as they are, and counts nothing but lookups. -/
theorem accounted_of_kept (hduring : s.during deed = s.entries) (hlosses : s.losses deed = [])
    (hadds : s.adds deed = false)
    (hkept : ∀ k : α, ((s.after deed).entries[k]?).isSome = (s.entries[k]?).isSome)
    (hevictions : (s.after deed).tally.evictions = s.tally.evictions)
    (hexpired : (s.after deed).tally.expired = s.tally.expired) : Accounted s deed := by
  apply accounted_of_mem_iff
  · intro k
    have hk := hkept k
    rw [hlosses, hduring]
    cases he : s.entries[k]? <;> simp [he] at hk ⊢
    exact hk
  · rw [hlosses]
    exact List.nodup_nil
  · intro k reason h
    rw [hlosses] at h
    cases h
  · intro k e he
    rw [hduring, ← Option.isSome_iff_exists, ← hkept, he]
    rfl
  · rw [hduring, hadds]
    rfl
  · rw [hlosses, hevictions]
    exact (UInt64.add_zero _).symm
  · rw [hlosses, hexpired]
    exact (UInt64.add_zero _).symm

theorem isSome_contents : (s.contents[k]?).isSome = (s.entries[k]?).isSome := by
  rw [getElem?_contents, Option.isSome_map]

/-- Writing the row of a stored key keeps the keys as they are. -/
theorem isSome_of_contents_insert {row : β × Option Instant} {e : Entry β}
    (he : s.entries[key]? = some e) (ht : t.contents = s.contents.insert key row) (k : α) :
    (t.entries[k]?).isSome = (s.entries[k]?).isSome := by
  rw [← isSome_contents, ht]
  by_cases hk : k = key
  · rw [hk, Std.ExtTreeMap.getElem?_insert_self, he]
    rfl
  · rw [getElem?_insert_of_ne hk, isSome_contents]

section Lost

variable {entries : Std.ExtTreeMap α (Entry β)} {victims : List α} {reason : Reason}

omit [Std.LawfulEqOrd α]

theorem keys_lost :
    (lost entries now victims t).map (·.1) = victims ++ expiredKeys entries now t := by
  simp [lost, Function.comp_def]

theorem mem_lost : (k, reason) ∈ lost entries now victims t ↔
    k ∈ victims ∧ reason = .evicted ∨ k ∈ expiredKeys entries now t ∧ reason = .expired := by
  simp [lost, eq_comm]

theorem count_evicted_lost :
    Reason.evicted.count (lost entries now victims t) = victims.length := by
  simp [lost, Reason.count_map_of_ne]

theorem count_expired_lost :
    Reason.expired.count (lost entries now victims t) = (expiredKeys entries now t).length := by
  simp [lost, Reason.count_map_of_ne]

end Lost

omit [Std.LawfulEqOrd α] in
theorem MadeRoom.stored_of_victim {victims : List α} (h : MadeRoom s now victims t)
    (hk : k ∈ victims) : ∃ e, s.entries[k]? = some e ∧ e.isLiveAt now = true := by
  obtain ⟨-, -, hlive, -⟩ := h.of_mem_victims hk
  obtain ⟨e, he⟩ := Option.isSome_iff_exists.mp hlive
  exact ⟨e, live?_eq_some_iff.mp he⟩

/-- What goes where room is made is a victim or expired. -/
theorem MadeRoom.mem_lost {victims : List α} (h : MadeRoom s now victims t) (k : α) :
    k ∈ (lost s.entries now victims t).map (·.1) ↔
      (∃ e : Entry β, s.entries[k]? = some e) ∧ t.entries[k]? = none := by
  rw [keys_lost, List.mem_append, mem_expiredKeys]
  constructor
  · rintro (hvictim | ⟨⟨e, he, -⟩, hgone⟩)
    · obtain ⟨e, he, -⟩ := h.stored_of_victim hvictim
      exact ⟨⟨e, he⟩, h.victim_gone k hvictim⟩
    · exact ⟨⟨e, he⟩, hgone⟩
  · rintro ⟨⟨e, he⟩, hgone⟩
    by_cases hvictim : k ∈ victims
    · exact .inl hvictim
    · refine .inr ⟨⟨e, he, isExpiredAt_of_live?_eq_none he ?_⟩, hgone⟩
      rw [← h.live_eq k hvictim, live?, hgone]
      rfl

theorem MadeRoom.nodup_lost {victims : List α} (h : MadeRoom s now victims t) :
    ((lost s.entries now victims t).map (·.1)).Nodup := by
  rw [keys_lost]
  refine List.Nodup.append ?_ (nodup_expiredKeys _) fun k hvictim hexpired => ?_
  · cases victims with
    | nil => exact List.nodup_nil
    | cons victim rest =>
      rw [(h.of_mem_victims List.mem_cons_self).1]
      exact List.nodup_singleton victim
  · -- a victim was live
    obtain ⟨e, he, hlive⟩ := h.stored_of_victim hvictim
    obtain ⟨⟨f, hf, hx⟩, -⟩ := mem_expiredKeys.mp hexpired
    rw [he] at hf
    cases hf
    simp [Entry.isLiveAt, hx] at hlive

theorem Consistent.accounted_insert (h : s.Consistent) (key : α) (value : β)
    (lifetime : Lifetime) (now : Instant) : Accounted s (.insert key value lifetime now) := by
  have hroom := h.insert key value lifetime now
  have hleft : ∀ (k : α) (e : Entry β), (s.insert key value lifetime now).2.entries[k]? = some e →
      ∃ e : Entry β, (s.write key value lifetime now).entries[k]? = some e :=
    fun k e he => ⟨e, hroom.entry_of k e he⟩
  refine accounted_of_mem_iff hroom.mem_lost hroom.nodup_lost ?_ hleft size_write ?_ ?_
  · intro k reason hk
    rcases mem_lost.mp hk with ⟨hvictim, rfl⟩ | ⟨hexpired, rfl⟩
    · obtain ⟨e, he⟩ := hroom.stored_of_victim hvictim
      exact ⟨now, e, rfl, he⟩
    · obtain ⟨⟨e, he⟩, -⟩ := mem_expiredKeys.mp hexpired
      exact ⟨now, e, rfl, he⟩
  · rw [losses, count_evicted_lost, Store.after, hroom.evictions_eq, tally_write]
  · -- what was counted as expired is what is missing and was not evicted
    obtain ⟨n, hexpired, hn⟩ :=
      (h.indexed.write key value lifetime now).size_evictOverflow (by
        have hfits := fits_iff.mp h.fits
        have hle : (s.write key value lifetime now).entries.size ≤ s.entries.size + 1 :=
          size_write_le
        rw [capacity_write]
        omega) now
    have hsize := size_add_length hroom.nodup_lost hroom.mem_lost hleft
    rw [keys_lost, List.length_append] at hsize
    have heq : n = (expiredKeys (s.write key value lifetime now).entries now
        (s.insert key value lifetime now).2).length := by
      simp only [Store.insert] at hsize ⊢
      omega
    rw [losses, count_expired_lost, ← heq, Store.after, Store.insert, hexpired, tally_write]

theorem Consistent.accounted_purge (h : s.Consistent) (order : Arrangement α) (now : Instant)
    (limit : Nat) : Accounted s (.purge order now limit) := by
  have hleft : ∀ (k : α) (e : Entry β),
      (s.purgeDue order now (some limit)).2.entries[k]? = some e →
        ∃ e : Entry β, s.entries[k]? = some e := by
    intro k e he
    rcases h.indexed.getElem?_purgeDue order now (some limit) k with hsame | ⟨hgone, -⟩
    · exact ⟨e, hsame ▸ he⟩
    · rw [he] at hgone
      cases hgone
  have hmem : ∀ k, k ∈ (s.losses (.purge order now limit)).map (·.1) ↔
      (∃ e : Entry β, s.entries[k]? = some e) ∧
        (s.purgeDue order now (some limit)).2.entries[k]? = none := by
    intro k
    rw [losses, keys_lost, List.nil_append, mem_expiredKeys]
    constructor
    · rintro ⟨⟨e, he, -⟩, hgone⟩
      exact ⟨⟨e, he⟩, hgone⟩
    · rintro ⟨⟨e, he⟩, hgone⟩
      refine ⟨⟨e, he, ?_⟩, hgone⟩
      rcases h.indexed.getElem?_purgeDue order now (some limit) k with hsame | ⟨-, hdead⟩
      · rw [hgone, he] at hsame
        cases hsame
      · exact isExpiredAt_of_live?_eq_none he hdead
  have hnodup : ((s.losses (.purge order now limit)).map (·.1)).Nodup := by
    rw [losses, keys_lost]
    exact nodup_expiredKeys _
  refine accounted_of_mem_iff hmem hnodup ?_ hleft rfl ?_ ?_
  · intro k reason hk
    rcases mem_lost.mp hk with ⟨hvictim, -⟩ | ⟨hexpired, rfl⟩
    · cases hvictim
    · obtain ⟨⟨e, he⟩, -⟩ := mem_expiredKeys.mp hexpired
      exact ⟨now, e, rfl, he⟩
  · rw [losses, count_evicted_lost, Store.after, h.indexed.tally_purgeDue]
    exact (UInt64.add_zero _).symm
  · have hsize := size_add_length hnodup hmem hleft
    have hpurge := h.indexed.size_purgeDue order now (some limit)
    rw [losses, keys_lost, List.nil_append] at hsize
    rw [losses, count_expired_lost, Store.after, h.indexed.tally_purgeDue]
    have heq : (s.purgeDue order now (some limit)).1 =
        (expiredKeys s.entries now (s.purgeDue order now (some limit)).2).length := by omega
    rw [heq]
    rfl

theorem accounted_remove (s : Store α β) (key : α) : Accounted s (.remove key) := by
  have hlosses : s.losses (.remove key) =
      if s.entries.contains key then [(key, .deleted)] else [] := rfl
  have hleft : ∀ (k : α) (e : Entry β), (s.remove key).2.entries[k]? = some e →
      ∃ e : Entry β, s.entries[k]? = some e := by
    intro k e he
    by_cases hk : k = key
    · rw [hk, getElem?_remove_self] at he
      cases he
    · exact ⟨e, by rwa [getElem?_remove_of_ne hk] at he⟩
  refine accounted_of_mem_iff (fun k => ?_) ?_ ?_ hleft rfl ?_ ?_
  · show _ ↔ (∃ e : Entry β, s.entries[k]? = some e) ∧ (s.remove key).2.entries[k]? = none
    rw [hlosses, ← Option.isSome_iff_exists, ← Std.ExtTreeMap.contains_eq_isSome_getElem?]
    by_cases hk : k = key
    · rw [hk, getElem?_remove_self]
      cases s.entries.contains key <;> simp
    · rw [getElem?_remove_of_ne hk, ← contains_eq_false_iff]
      cases s.entries.contains key <;> simp [hk]
  · rw [hlosses]
    split <;> simp
  · intro k reason hmem
    rw [hlosses] at hmem
    split at hmem
    · obtain ⟨rfl, rfl⟩ := Prod.mk.inj (List.mem_singleton.mp hmem)
      rfl
    · cases hmem
  all_goals
    rw [hlosses, Store.after, tally_remove]
    split <;> exact (UInt64.add_zero _).symm

theorem accounted_reset (s : Store α β) : Accounted s .reset := by
  have hkeys : (s.losses .reset).map (·.1) = s.entries.keys := by
    simp [losses, Function.comp_def]
  refine accounted_of_mem_iff (fun k => ?_) ?_ ?_ (fun k e he => ?_) rfl ?_ ?_
  · rw [hkeys, mem_keys_iff]
    simp [during, Store.after, Store.reset]
  · rw [hkeys]
    exact Std.ExtTreeMap.nodup_keys
  · intro k reason hmem
    obtain ⟨_, -, heq⟩ := List.mem_map.mp hmem
    cases heq
    rfl
  · simp [Store.after, Store.reset] at he
  all_goals
    rw [losses, Reason.count_map_of_ne (by decide)]
    exact (UInt64.add_zero _).symm

/-- Every deed is accounted for. -/
theorem Consistent.accounted (h : s.Consistent) (deed : Deed α β) : Accounted s deed := by
  cases deed with
  | miss => exact accounted_of_kept rfl rfl rfl (fun _ => rfl) rfl rfl
  | hit key =>
    refine accounted_of_kept rfl rfl rfl (fun k => ?_) ?_ ?_
    · rw [← isSome_contents, ← isSome_contents, Store.after, contents_touch]
      rfl
    all_goals
      rw [Store.after, tally_touch]
      rfl
  | touch key =>
    refine accounted_of_kept rfl rfl rfl (fun k => ?_) ?_ ?_
    · rw [← isSome_contents, ← isSome_contents, Store.after, contents_touch]
    all_goals rw [Store.after, tally_touch]
  | insert key value lifetime now => exact h.accounted_insert key value lifetime now
  | remove key => exact accounted_remove s key
  | replace key value =>
    refine accounted_of_kept rfl rfl rfl (fun k => ?_) ?_ ?_
    · cases he : s.entries[key]? with
      | none => rw [Store.after, replaceValue_of_absent he]
      | some e => exact isSome_of_contents_insert he (contents_replaceValue he value) k
    all_goals rw [Store.after, tally_replaceValue]
  | extend key lifetime now =>
    refine accounted_of_kept rfl rfl rfl (fun k => ?_) ?_ ?_
    · cases hl : s.live? key now with
      | none => simp only [Store.after, Store.setLifetime, hl]
      | some e =>
        exact isSome_of_contents_insert (live?_eq_some_iff.mp hl).1
          (contents_setLifetime hl lifetime) k
    all_goals rw [Store.after, tally_setLifetime]
  | purge order now limit => exact h.accounted_purge order now limit
  | reset => exact accounted_reset s

/-- A deed counts the lookup that it is, and no other. -/
theorem Consistent.lookups_after (h : s.Consistent) (deed : Deed α β) :
    (s.after deed).tally.hits =
        s.tally.hits + UInt64.ofNat (deed.found?.toList.count true) ∧
      (s.after deed).tally.misses =
        s.tally.misses + UInt64.ofNat (deed.found?.toList.count false) := by
  cases deed with
  | miss => exact ⟨(UInt64.add_zero _).symm, rfl⟩
  | hit key =>
    rw [Store.after, tally_touch]
    exact ⟨rfl, (UInt64.add_zero _).symm⟩
  | touch key =>
    rw [Store.after, tally_touch]
    exact ⟨(UInt64.add_zero _).symm, (UInt64.add_zero _).symm⟩
  | insert key value lifetime now =>
    have hroom := h.insert key value lifetime now
    rw [Store.after, hroom.hits_eq, hroom.misses_eq, tally_write]
    exact ⟨(UInt64.add_zero _).symm, (UInt64.add_zero _).symm⟩
  | remove key =>
    rw [Store.after, tally_remove]
    exact ⟨(UInt64.add_zero _).symm, (UInt64.add_zero _).symm⟩
  | replace key value =>
    rw [Store.after, tally_replaceValue]
    exact ⟨(UInt64.add_zero _).symm, (UInt64.add_zero _).symm⟩
  | extend key lifetime now =>
    rw [Store.after, tally_setLifetime]
    exact ⟨(UInt64.add_zero _).symm, (UInt64.add_zero _).symm⟩
  | purge order now limit =>
    rw [Store.after, h.indexed.tally_purgeDue]
    exact ⟨(UInt64.add_zero _).symm, (UInt64.add_zero _).symm⟩
  | reset => exact ⟨(UInt64.add_zero _).symm, (UInt64.add_zero _).symm⟩

/-! ## Deeds one after the other -/

/-- What was lost in some steps. -/
def lossesAll (steps : List (Store α β × Deed α β)) : List (α × Reason) :=
  steps.flatMap fun step => step.1.losses step.2

/-- How many keys were added in some steps. -/
def addsAll (steps : List (Store α β × Deed α β)) : Nat :=
  steps.countP fun step => step.1.adds step.2

/-- Between the two stores, the lookups found this, and the steps lost and added what they did. -/
structure Booked (found : List Bool) (steps : List (Store α β × Deed α β)) (s t : Store α β) :
    Prop where
  hits_eq : t.tally.hits = s.tally.hits + UInt64.ofNat (found.count true)
  misses_eq : t.tally.misses = s.tally.misses + UInt64.ofNat (found.count false)
  evictions_eq : t.tally.evictions =
    s.tally.evictions + UInt64.ofNat (Reason.evicted.count (lossesAll steps))
  expired_eq : t.tally.expired =
    s.tally.expired + UInt64.ofNat (Reason.expired.count (lossesAll steps))
  size_eq : t.entries.size + (lossesAll steps).length = s.entries.size + addsAll steps

variable {u : Store α β} {found more : List Bool} {steps later : List (Store α β × Deed α β)}

omit [Std.LawfulEqOrd α]

theorem lossesAll_append : lossesAll (steps ++ later) = lossesAll steps ++ lossesAll later :=
  List.flatMap_append

theorem addsAll_append : addsAll (steps ++ later) = addsAll steps + addsAll later :=
  List.countP_append

theorem Booked.of_eq (htally : t.tally = s.tally) (hsize : t.entries.size = s.entries.size) :
    Booked [] [] s t where
  hits_eq := by rw [htally]; exact (UInt64.add_zero _).symm
  misses_eq := by rw [htally]; exact (UInt64.add_zero _).symm
  evictions_eq := by rw [htally]; exact (UInt64.add_zero _).symm
  expired_eq := by rw [htally]; exact (UInt64.add_zero _).symm
  size_eq := hsize

/-- What is booked in parts is booked together. -/
theorem Booked.append (h : Booked found steps s t) (hmore : Booked more later t u) :
    Booked (found ++ more) (steps ++ later) s u where
  hits_eq := by
    rw [hmore.hits_eq, h.hits_eq, List.count_append, UInt64.ofNat_add, UInt64.add_assoc]
  misses_eq := by
    rw [hmore.misses_eq, h.misses_eq, List.count_append, UInt64.ofNat_add, UInt64.add_assoc]
  evictions_eq := by
    rw [hmore.evictions_eq, h.evictions_eq, lossesAll_append, Reason.count_append,
      UInt64.ofNat_add, UInt64.add_assoc]
  expired_eq := by
    rw [hmore.expired_eq, h.expired_eq, lossesAll_append, Reason.count_append,
      UInt64.ofNat_add, UInt64.add_assoc]
  size_eq := by
    have hsize := h.size_eq
    have hsize' := hmore.size_eq
    rw [lossesAll_append, addsAll_append, List.length_append]
    omega

variable [Std.LawfulEqOrd α]

theorem Consistent.booked_after (h : s.Consistent) (deed : Deed α β) :
    Booked deed.found?.toList [(s, deed)] s (s.after deed) where
  hits_eq := (h.lookups_after deed).1
  misses_eq := (h.lookups_after deed).2
  evictions_eq := by simpa [lossesAll] using (h.accounted deed).evictions_eq
  expired_eq := by simpa [lossesAll] using (h.accounted deed).expired_eq
  size_eq := by simpa [lossesAll, addsAll] using (h.accounted deed).size_eq

theorem Consistent.booked_afterAll (h : s.Consistent) (deeds : List (Deed α β)) :
    Booked (deeds.filterMap Deed.found?) (s.trail deeds) s (s.afterAll deeds) := by
  induction deeds generalizing s with
  | nil => exact .of_eq rfl rfl
  | cons deed deeds ih =>
    have hall := (h.booked_after deed).append (ih (h.after deed))
    cases hfound : deed.found? <;> simpa [hfound, trail] using hall

end Store

/-! ## What lookups find -/

namespace Deed

variable {deed : Deed α β}

theorem found?_put (key : α) (value : Option β) (lifetime : Lifetime) (now : Instant) :
    (put key value lifetime now).found? = none := by
  unfold put
  split <;> rfl

@[simp] theorem filterMap_putNew (key : α) (value : Option β) (lifetime : Lifetime)
    (now : Instant) : (putNew key value lifetime now).filterMap found? = [] := by
  unfold putNew
  split <;> rfl

end Deed

/-- The key of a lookup that is counted: a caller asks for it once, and `getOrSet` does not once the
cache is closed. -/
def Section.asks? (closed : Bool) : Section α β → Option α
  | .perform (.get key) | .look ⟨.getOrSet, key, _⟩ | .look ⟨.getOrSetLocked, key, _⟩ => some key
  | .perform (.getOrSet key _ _) => if closed then none else some key
  | .perform _ | .look ⟨.setIfAbsent, _, _⟩ | .finish _ _ _ | .sweepBatch _ | .shut => none

/-- The operation asks for `key` to be deleted. A plain write does so if its value is absent or its
lifetime is negative, and a new lifetime if it is negative. -/
def Operation.Deletes (key : α) : Operation α β → Prop
  | .remove listed => key ∈ listed
  | .set k value lifetime => k = key ∧ storable? value lifetime = none
  | .setAll listed lifetime => ∃ item ∈ listed, item.1 = key ∧ storable? item.2 lifetime = none
  | .update k value => k = key ∧ value = none
  | .setLifetime k lifetime => k = key ∧ lifetime.isStorable = false
  | .setIfAbsent _ _ _ | .get _ | .getOrSet _ _ _ | .contains _ | .timeLeft _ | .size | .pairs |
    .keys | .values | .clear | .close => False

namespace Section

/-- The section asks for `key` to be deleted. -/
def Deletes (key : α) : Section α β → Prop
  | .perform op => op.Deletes key
  | .look _ | .finish _ _ _ | .sweepBatch _ | .shut => False

/-- The section asks for all entries to be dropped. -/
def DropsAll (sec : Section α β) : Prop := sec = .perform .clear ∨ sec = .perform .close

end Section

/-- A deed that deletes or drops is one that the section asks for. -/
def Deed.AskedBy (sec : Section α β) : Deed α β → Prop
  | .remove key => sec.Deletes key
  | .reset => sec.DropsAll
  | .miss | .hit _ | .touch _ | .insert _ _ _ _ | .replace _ _ | .extend _ _ _ | .purge _ _ _ =>
    True

theorem Deed.askedBy_putNew {deed : Deed α β} {sec : Section α β} {key : α} {value : Option β}
    {lifetime : Lifetime} {now : Instant} (h : deed ∈ putNew key value lifetime now) :
    deed.AskedBy sec := by
  unfold putNew at h
  split at h
  · rw [List.mem_singleton.mp h]
    trivial
  · cases h

variable [Ord α] [Std.TransOrd α]

theorem Operation.filterMap_deeds {op : Operation α β}
    (hop : ∀ key value lifetime, op ≠ .getOrSet key value lifetime) (s : Store α β)
    (now : Instant) : (op.deeds s now).filterMap Deed.found? = [] := by
  cases op with
  | getOrSet key value lifetime => exact absurd rfl (hop key value lifetime)
  | set key value lifetime => simp [deeds, Deed.found?_put]
  | setAll listed lifetime =>
    rw [deeds, List.filterMap_map, List.filterMap_eq_nil_iff]
    exact fun item _ => Deed.found?_put item.1 item.2 lifetime now
  | setIfAbsent key value lifetime =>
    simp only [deeds]
    split
    · rfl
    · exact Deed.filterMap_putNew key value lifetime now
  | remove listed =>
    rw [deeds, List.filterMap_map, List.filterMap_eq_nil_iff]
    exact fun _ _ => rfl
  | update key value =>
    simp only [deeds]
    split
    · cases value <;> rfl
    · rfl
  | setLifetime key lifetime =>
    simp only [deeds]
    split
    · rfl
    · split
      · rfl
      · by_cases hl : lifetime.isStorable = true <;> simp [hl, Deed.found?]
  | get | contains | timeLeft | size | pairs | keys | values | clear | close => rfl

theorem Call.filterMap_lockedDeeds (call : Call α) (outcome : Except Fault (Option β))
    (s : Store α β) (now later : Instant) :
    (call.lockedDeeds outcome s now later).filterMap Deed.found? = [] := by
  obtain ⟨form, key, lifetime⟩ := call
  simp only [lockedDeeds]
  split
  · cases form <;> rfl
  · cases outcome with
    | error fault => rfl
    | ok value => exact Deed.filterMap_putNew key value lifetime later

theorem Operation.askedBy_deeds {op : Operation α β} {s : Store α β} {now : Instant}
    {deed : Deed α β} (h : deed ∈ op.deeds s now) : deed.AskedBy (.perform op) := by
  cases op with
  | set key value lifetime =>
    rw [List.mem_singleton.mp h, Deed.put]
    split
    · trivial
    · rename_i hnone
      exact ⟨rfl, hnone⟩
  | setAll listed lifetime =>
    obtain ⟨item, hitem, rfl⟩ := List.mem_map.mp h
    rw [Deed.put]
    split
    · trivial
    · rename_i hnone
      exact ⟨item, hitem, rfl, hnone⟩
  | setIfAbsent key value lifetime =>
    simp only [deeds] at h
    split at h
    · cases h
    · exact Deed.askedBy_putNew h
  | getOrSet key value lifetime =>
    simp only [deeds] at h
    split at h
    · rw [List.mem_singleton.mp h]
      trivial
    · rcases List.mem_cons.mp h with rfl | hput
      · trivial
      · exact Deed.askedBy_putNew hput
  | remove listed =>
    obtain ⟨key, hkey, rfl⟩ := List.mem_map.mp h
    exact hkey
  | update key value =>
    simp only [deeds] at h
    split at h
    · rw [List.mem_singleton.mp h]
      cases value with
      | none => exact ⟨rfl, rfl⟩
      | some value => trivial
    · cases h
  | setLifetime key lifetime =>
    simp only [deeds] at h
    split at h
    · cases h
    · split at h
      · cases h
      · rw [List.mem_singleton.mp h]
        cases hl : lifetime.isStorable with
        | true => trivial
        | false => exact ⟨rfl, hl⟩
  | get | contains | timeLeft | size | pairs | keys | values | clear | close => cases h

theorem Call.askedBy_lockedDeeds {call : Call α} {outcome : Except Fault (Option β)}
    {s : Store α β} {now later : Instant} {deed : Deed α β} {sec : Section α β}
    (h : deed ∈ call.lockedDeeds outcome s now later) : deed.AskedBy sec := by
  obtain ⟨form, key, lifetime⟩ := call
  simp only [lockedDeeds] at h
  split at h
  · cases form with
    | setIfAbsent => cases h
    | getOrSet | getOrSetLocked =>
      rw [List.mem_singleton.mp h]
      trivial
  · cases outcome with
    | error fault => cases h
    | ok value => exact Deed.askedBy_putNew h

namespace Cache

/-- What a section asks for is found live. -/
def found? (c : Cache α β) (sec : Section α β) (now : Instant) : Option Bool :=
  (sec.asks? c.closed).map fun key => (c.store.live? key now).isSome

/-- What is found by the lookups of a run that are counted. -/
def found : Cache α β → List (Section α β × Instant) → List Bool
  | _, [] => []
  | c, (sec, now) :: run => (c.found? sec now).toList ++ found (c.enact sec now) run

theorem filterMap_counts (c : Cache α β) (key : α) (now : Instant) :
    (c.counts key now).deeds.filterMap Deed.found? = [(c.store.live? key now).isSome] := by
  unfold counts
  cases c.store.live? key now <;> rfl

theorem filterMap_writes (c : Cache α β) (deeds : Store α β → List (Deed α β))
    (h : ∀ s, (deeds s).filterMap Deed.found? = []) :
    (c.writes deeds).deeds.filterMap Deed.found? = [] := by
  simp only [writes, Effect.deeds]
  split
  · rfl
  · exact h _

variable [Std.LawfulEqOrd α] {c : Cache α β} {sec : Section α β} {now : Instant}

/-- The deeds of a section count the lookup that its caller asks for, and no other. -/
theorem filterMap_effect (c : Cache α β) (sec : Section α β) (now : Instant) :
    (sec.effect c now).deeds.filterMap Deed.found? = (c.found? sec now).toList := by
  cases sec with
  | perform op =>
    have hop : (∀ key value lifetime, op ≠ .getOrSet key value lifetime) →
        (c.writes (op.deeds · now)).deeds.filterMap Deed.found? = [] :=
      fun hop => c.filterMap_writes (op.deeds · now) fun s => Operation.filterMap_deeds hop s now
    cases op with
    | get key => exact filterMap_counts c key now
    | getOrSet key value lifetime =>
      simp only [Section.effect, Operation.effect, Operation.deeds, writes, Effect.deeds, found?,
        Section.asks?]
      cases c.closed with
      | true => rfl
      | false =>
        have hsome : (c.settle.store.live? key now).isSome = (c.store.live? key now).isSome :=
          isSome_live?_settled c key now
        simp only [Bool.false_eq_true, if_false, hsome]
        cases hlive : (c.store.live? key now).isSome <;> simp [hlive, Deed.found?]
    | contains | timeLeft | size | pairs | keys | values | clear => rfl
    | close =>
      simp only [Section.effect, Operation.effect]
      split <;> rfl
    | set | setAll | setIfAbsent | remove | update | setLifetime => exact hop (by simp)
  | look call =>
    obtain ⟨form, key, lifetime⟩ := call
    cases form with
    | setIfAbsent => rfl
    | getOrSet | getOrSetLocked => exact filterMap_counts c key now
  | finish call outcome later =>
    have hlocked := c.filterMap_writes (call.lockedDeeds outcome · now later)
      fun s => call.filterMap_lockedDeeds outcome s now later
    obtain ⟨form, key, lifetime⟩ := call
    cases form with
    | setIfAbsent | getOrSetLocked => exact hlocked
    | getOrSet =>
      simp only [Section.effect, Call.finishEffect]
      split
      · exact c.filterMap_writes _ fun _ => rfl
      · rfl
      · rfl
  | sweepBatch order =>
    exact c.filterMap_writes (fun _ => [.purge order now c.batch]) fun _ => rfl
  | shut => rfl

/-! ## Sections -/

theorem Consistent.booked_enact (h : c.Consistent) (sec : Section α β) (now : Instant) :
    Store.Booked (c.found? sec now).toList (c.settled.trail (sec.effect c now).deeds) c.store
      (c.enact sec now).store := by
  obtain ⟨hcontents, htally⟩ := seen_enact c sec now
  have hsettled : Store.Booked [] [] c.store c.settled :=
    .of_eq tally_settled (Store.size_eq_of_contents contents_settled)
  have hdeeds := h.settled.booked_afterAll (sec.effect c now).deeds
  have hseen := Store.Booked.of_eq htally (Store.size_eq_of_contents hcontents)
  rw [filterMap_effect] at hdeeds
  simpa using (hsettled.append hdeeds).append hseen

theorem Consistent.booked_enactAll (h : c.Consistent) (run : List (Section α β × Instant)) :
    Store.Booked (c.found run) (c.trail run) c.store (c.enactAll run).store := by
  induction run generalizing c with
  | nil => exact .of_eq rfl rfl
  | cons item run ih => exact (h.booked_enact item.1 item.2).append (ih (h.enact item.1 item.2))

/-! ## Who has entries deleted -/

omit [Std.LawfulEqOrd α] in
theorem askedBy_effect {deed : Deed α β} (h : deed ∈ (sec.effect c now).deeds) :
    deed.AskedBy sec := by
  cases does_of_mem_deeds h with
  | operation hdeed => exact Operation.askedBy_deeds hdeed
  | locked _ hdeed => exact Call.askedBy_lockedDeeds hdeed
  | clear => exact .inl rfl
  | close => exact .inr rfl
  | miss | hit | unlocked | sweep => trivial

/-- What a section does is what it shows, and only callers who ask for it have entries deleted or
dropped. -/
structure Traced (c : Cache α β) (sec : Section α β) (now : Instant) : Prop where
  contents_eq : (c.enact sec now).store.contents =
    (c.settled.afterAll (sec.effect c now).deeds).contents
  asked : ∀ deed ∈ (sec.effect c now).deeds, deed.AskedBy sec

theorem traced (c : Cache α β) (sec : Section α β) (now : Instant) : c.Traced sec now where
  contents_eq := (seen_enact c sec now).1
  asked _ h := askedBy_effect h

/-! ## Runs -/

/-- The books of a run that began with an empty cache. -/
structure Balanced (start : Cache α β) (run : List (Section α β × Instant)) (d : Cache α β) :
    Prop where
  lookups_eq : d.store.tally.hits + d.store.tally.misses =
    UInt64.ofNat (start.found run).length
  hits_eq : d.store.tally.hits = UInt64.ofNat ((start.found run).count true)
  /-- Every key that was added is stored, or went for one of the reasons. -/
  adds_eq : Store.addsAll (start.trail run) = d.store.entries.size +
    Reason.evicted.count (Store.lossesAll (start.trail run)) +
    Reason.expired.count (Store.lossesAll (start.trail run)) +
    Reason.deleted.count (Store.lossesAll (start.trail run)) +
    Reason.dropped.count (Store.lossesAll (start.trail run))
  evictions_eq : d.store.tally.evictions =
    UInt64.ofNat (Reason.evicted.count (Store.lossesAll (start.trail run)))
  expired_eq : d.store.tally.expired =
    UInt64.ofNat (Reason.expired.count (Store.lossesAll (start.trail run)))
  /-- So the counters balance, as far as 64 bits tell. -/
  counters_eq : UInt64.ofNat (Store.addsAll (start.trail run)) =
    UInt64.ofNat d.store.entries.size + d.store.tally.evictions + d.store.tally.expired +
      UInt64.ofNat (Reason.deleted.count (Store.lossesAll (start.trail run))) +
      UInt64.ofNat (Reason.dropped.count (Store.lossesAll (start.trail run)))
  /-- Every step lost what it took out of the store, each entry for one reason. -/
  accounted : ∀ step ∈ start.trail run, step.1.Accounted step.2
  traced : ∀ earlier sec now rest, run = earlier ++ (sec, now) :: rest →
    (start.enactAll earlier).Traced sec now

/-- Whatever sections follow each other, and whatever the clock shows, the books balance after each
of them. -/
theorem balanced_of_reachable (capacity batch : Nat) (sweeper : Option Nat)
    (run : List (Section α β × Instant)) :
    let start := { (empty capacity batch : Cache α β) with sweeper }
    Balanced start run (start.enactAll run) := by
  intro start
  have hstart : start.Consistent := consistent_start capacity batch sweeper
  have hbooked := hstart.booked_enactAll run
  have hhits : (start.enactAll run).store.tally.hits =
      UInt64.ofNat ((start.found run).count true) := hbooked.hits_eq.trans (UInt64.zero_add _)
  have hmisses : (start.enactAll run).store.tally.misses =
      UInt64.ofNat ((start.found run).count false) := hbooked.misses_eq.trans (UInt64.zero_add _)
  have hevictions := hbooked.evictions_eq.trans (UInt64.zero_add _)
  have hexpired := hbooked.expired_eq.trans (UInt64.zero_add _)
  have hsize := hbooked.size_eq
  have hlength := Reason.length_eq_add (Store.lossesAll (start.trail run))
  have hstored : start.store.entries.size = 0 := Std.ExtTreeMap.size_empty
  have hadds : Store.addsAll (start.trail run) = (start.enactAll run).store.entries.size +
      Reason.evicted.count (Store.lossesAll (start.trail run)) +
      Reason.expired.count (Store.lossesAll (start.trail run)) +
      Reason.deleted.count (Store.lossesAll (start.trail run)) +
      Reason.dropped.count (Store.lossesAll (start.trail run)) := by omega
  refine ⟨?_, hhits, hadds, hevictions, hexpired, ?_, ?_, ?_⟩
  · rw [hhits, hmisses, ← UInt64.ofNat_add, List.count_true_add_count_false]
  · rw [hadds, hevictions, hexpired]
    simp only [UInt64.ofNat_add]
  · intro step hstep
    exact (hstart.of_mem_trail hstep).1.accounted step.2
  · exact fun earlier sec now _ _ => traced (start.enactAll earlier) sec now

/-- One entry is evicted, one is expired when the next needs its place, one is deleted, and one is
dropped; one lookup hits and one misses. -/
theorem balanced_after_every_loss :
    let start := { (empty 1 1 : Cache Nat Nat) with sweeper := none }
    let run : List (Section Nat Nat × Instant) :=
      [(.perform (.set 1 (some 10) .forever), .clamp 0),
        (.perform (.set 2 (some 20) (.ofMillis 5)), .clamp 1),
        (.look ⟨.getOrSet, 2, .forever⟩, .clamp 2),
        (.perform (.getOrSet 2 none .forever), .clamp 7),
        (.perform (.set 3 (some 30) .forever), .clamp 9),
        (.perform (.set 3 none .forever), .clamp 9),
        (.perform (.set 4 (some 40) .forever), .clamp 9), (.perform .clear, .clamp 9)]
    start.found run = [true, false] ∧
      Store.lossesAll (start.trail run) =
        [(1, .evicted), (2, .expired), (3, .deleted), (4, .dropped)] ∧
      Balanced start run (start.enactAll run) := by
  intro start run
  refine ⟨?_, ?_, balanced_of_reachable 1 1 none run⟩
  all_goals
    subst run start
    cbv

end Cache

end ExpiringCache
