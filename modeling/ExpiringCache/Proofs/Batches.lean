import ExpiringCache.Proofs.Listing
import ExpiringCache.Proofs.Nested
import ExpiringCache.Proofs.OneKey

/-!
# Writing more pairs than there is room for

A batch of pairs is written one pair after the other, and a later pair may evict the key of an
earlier one, or write it once more. What is left in the end is the same as if the batch had been
looked through from its end: the keys found first, as many as there is room for.

1. **Last occurrences** (`latest`): the keys of a list whose last occurrences come latest, in the
   order of these (`latest_pairwise`, `latest_earlier`).
2. **One write** (`Store.Consistent.toList_insert`, `Store.Consistent.before_of_victim`): what
   becomes of the order of use, and who has to go.
3. **The pairs so far** (`Store.Batched`): the keys of the batch that are left are the most recently
   used ones, and if any is gone there is room for no other. One more write keeps it so.
4. **The batch** (`Cache.KeepsLatest`): what a cache holds after it, in every state that sections
   lead to.
-/

namespace ExpiringCache

/-! ## Last occurrences -/

section Latest

variable {α : Type} [DecidableEq α]

/-- Of the different keys of a list those whose last occurrences come latest, at most `n`, in the
order of these occurrences. -/
def latest (n : Nat) (keys : List α) : List α := keys.dedup.rtake n

theorem dedup_append_singleton (keys : List α) (key : α) :
    (keys ++ [key]).dedup = keys.dedup.filter (· ≠ key) ++ [key] := by
  induction keys with
  | nil => simp
  | cons k keys ih =>
    rw [List.cons_append]
    by_cases hmem : k ∈ keys
    · rw [List.dedup_cons_of_mem (List.mem_append_left _ hmem), ih, List.dedup_cons_of_mem hmem]
    · rw [List.dedup_cons_of_notMem hmem]
      by_cases hk : k = key
      · rw [List.dedup_cons_of_mem (by simp [hk]), ih]
        simp [hk]
      · rw [List.dedup_cons_of_notMem (by simp [hmem, hk]), ih]
        simp [hk]

/-- Leaving out repetitions keeps the last occurrence of every key where it is. -/
theorem pairwise_dedup (keys : List α) : keys.dedup.Pairwise (LastUsedBefore keys) := by
  induction keys using List.reverseRecOn with
  | nil => simp
  | append_singleton keys key ih =>
    rw [dedup_append_singleton, List.pairwise_append]
    refine ⟨?_, List.pairwise_singleton _ key, ?_⟩
    · refine (ih.sublist List.filter_sublist).imp_of_mem fun ha _ hab => hab.append ?_
      simpa using (List.mem_filter.mp ha).2
    · intro a ha b hb
      obtain ⟨hmem, hne⟩ := List.mem_filter.mp ha
      rw [List.mem_singleton.mp hb]
      exact lastUsedBefore_use (List.mem_dedup.mp hmem) (by simpa using hne)

theorem latest_length (n : Nat) (keys : List α) :
    (latest n keys).length = min n keys.dedup.length := by
  rw [latest, List.rtake, List.length_drop]
  omega

theorem latest_pairwise (n : Nat) (keys : List α) :
    (latest n keys).Pairwise (LastUsedBefore keys) :=
  (pairwise_dedup keys).sublist (List.drop_sublist _ _)

/-- Every other key occurs last before any of them does. -/
theorem latest_earlier {n : Nat} {keys : List α} {a b : α} (ha : a ∈ keys)
    (hnot : a ∉ latest n keys) (hb : b ∈ latest n keys) : LastUsedBefore keys a b := by
  have hsplit : keys.dedup = keys.dedup.take (keys.dedup.length - n) ++ latest n keys :=
    (List.take_append_drop _ _).symm
  have hpairwise := pairwise_dedup keys
  rw [hsplit, List.pairwise_append] at hpairwise
  refine hpairwise.2.2 a ?_ b hb
  have hmem : a ∈ keys.dedup := List.mem_dedup.mpr ha
  rw [hsplit, List.mem_append] at hmem
  exact hmem.resolve_right hnot

end Latest

variable {α β : Type} [Ord α] [Std.TransOrd α] [Std.LawfulEqOrd α]

namespace Store

variable {s : Store α β} {key k v : α} {value : β} {lifetime : Lifetime} {now : Instant}
  {keys : List α}

/-! ## One write -/

/-- Of some keys those that are stored. -/
def among (s : Store α β) (keys : List α) : List α := keys.filter fun k => s.entries[k]?.isSome

omit [Std.LawfulEqOrd α] in
theorem mem_among : k ∈ s.among keys ↔ k ∈ keys ∧ ∃ e, s.entries[k]? = some e := by
  rw [among, List.mem_filter, Option.isSome_iff_exists]

/-- A key that is not written and no victim is as live as before. -/
theorem Consistent.live?_insert_of_ne (h : s.Consistent) (hk : k ≠ key)
    (hstays : k ∉ (s.insert key value lifetime now).1) :
    (s.insert key value lifetime now).2.live? k now = s.live? k now := by
  rw [(h.insert key value lifetime now).live_eq k hstays, live?, getElem?_write_of_ne hk, live?]

/-- What stays is listed as before, and the key that is written comes last. -/
theorem Consistent.toList_insert [DecidableEq α] (h : s.Consistent)
    (bounded : 0 < s.recency.capacity) (hnow : now < .latest) :
    (s.insert key value lifetime now).2.recency.toList =
      (s.insert key value lifetime now).2.among (s.recency.toList.filter (· ≠ key)) ++ [key] := by
  have hroom := h.insert key value lifetime now
  have hcap : (s.insert key value lifetime now).2.recency.capacity = s.recency.capacity :=
    hroom.capacity_eq.trans capacity_write
  refine Follows.toList_eq (h.follows_after (.insert key value lifetime now)) h.indexed
    hroom.indexed (by rwa [← hcap] at bounded)
    (List.filter_sublist.trans List.filter_sublist) ?_ fun k => ?_
  · intro k hk hused
    have hne := (List.mem_filter.mp (List.mem_filter.mp hk).1).2
    simp [Option.some.inj hused] at hne
  · rw [List.mem_append, mem_among, List.mem_filter, h.indexed.mem_toList bounded, Deed.use?,
      Option.toList_some, List.mem_singleton]
    by_cases hk : k = key
    · subst hk
      have hwritten : (s.insert k value lifetime now).2.JustWritten k value lifetime now :=
        h.justWritten_insert (.inr hnow)
      obtain ⟨e, he, -⟩ := hwritten.live
      exact iff_of_true (.inr rfl) ⟨e, (live?_eq_some_iff.mp he).1⟩
    · simp only [hk, or_false, ne_eq, not_false_eq_true, decide_true, and_true]
      refine and_iff_right_of_imp ?_
      rintro ⟨e, he⟩
      have hstored := hroom.entry_of k e he
      rw [getElem?_write_of_ne hk] at hstored
      exact ⟨e, hstored⟩

/-- A victim makes room for one entry too many, and was used before all others that are live. -/
theorem Consistent.before_of_victim (h : s.Consistent)
    (hv : v ∈ (s.insert key value lifetime now).1) :
    v ≠ key ∧
      s.recency.capacity < ((s.write key value lifetime now).liveEntries now).length ∧
      ∀ k, k ≠ v → k ≠ key → (s.live? k now).isSome = true → s.Before v k := by
  have hroom := h.insert key value lifetime now
  have hkey : v ≠ key := fun hkey => h.not_mem_insert_fst (hkey ▸ hv)
  obtain ⟨-, ⟨hbounded, hmany⟩, hlive, hfirst⟩ := hroom.of_mem_victims hv
  rw [capacity_write] at hmany
  refine ⟨hkey, hmany, fun k hkv hk hklive => ?_⟩
  have hwritten : ((s.write key value lifetime now).live? k now).isSome = true := by
    rwa [live?, getElem?_write_of_ne hk]
  obtain ⟨e, he⟩ := stored_of_live hlive
  obtain ⟨f, hf⟩ := stored_of_live hwritten
  -- neither of the two is written, so they stand as they stood
  rcases ((follows_write key value lifetime now).before_iff h.indexed
    (h.indexed.write key value lifetime now) hbounded he hf).mp (hfirst k hkv hwritten) with
    ⟨hsame, -⟩ | ⟨-, -, hbefore⟩
  · exact absurd (Option.some.inj hsame).symm hk
  · exact hbefore

/-- There is no room for more keys than the capacity allows. -/
theorem Consistent.length_le (h : s.Consistent) (bounded : 0 < s.recency.capacity)
    (hnodup : keys.Nodup) (hlive : ∀ k ∈ keys, (s.live? k now).isSome = true) :
    keys.length ≤ s.recency.capacity := by
  have hlength := length_le_of_live s now [] hnodup fun k hk => .inr (hlive k hk)
  have hsize := length_liveEntries_le s now
  have hfits := fits_iff.mp h.fits
  rw [List.length_nil] at hlength
  omega

theorem length_liveEntries_le_of_mem (h : ∀ k, (s.live? k now).isSome = true → k ∈ keys) :
    (s.liveEntries now).length ≤ keys.length := by
  have hnodup : ((s.liveEntries now).map (·.1)).Nodup := nodup_keys_filter s.entries _
  have hlength := (List.subperm_of_subset hnodup fun k hk => h k (mem_liveKeys.mp hk)).length_le
  rwa [List.length_map] at hlength

/-! ## The pairs so far -/

/-- The pairs were written to `s` at `now`, all of them with the same lifetime. Of their keys, in
the order of their last occurrences, those in `gone` are gone and those in `kept` are not. -/
structure Batched [DecidableEq α] (lifetime : Lifetime) (now : Instant) (pairs : List (α × β))
    (s : Store α β) (gone kept : List α) : Prop where
  split : (pairs.map (·.1)).dedup = gone ++ kept
  /-- A key is gone only if those that came later fill the store. -/
  full : gone ≠ [] → kept.length = s.recency.capacity
  last : kept <:+ s.recency.toList
  live : ∀ k ∈ kept, ∃ e, s.live? k now = some e ∧
    pairs.reverse.lookup k = some e.value ∧ e.deadline = lifetime.deadline now

omit [Std.LawfulEqOrd α] in
/-- The key before all others is the first one of a list of keys in the order of use. -/
theorem eq_cons_of_first (hsorted : keys.Pairwise s.Before) (hv : v ∈ keys)
    (hfirst : ∀ k ∈ keys, k ≠ v → s.Before v k) : ∃ rest, keys = v :: rest := by
  obtain ⟨front, rest, rfl⟩ := List.append_of_mem hv
  cases front with
  | nil => exact ⟨rest, rfl⟩
  | cons k front =>
    have hbefore : s.Before k v := (List.pairwise_cons.mp hsorted).1 v (by simp)
    have hne : k ≠ v := by
      rintro rfl
      exact not_before_both hbefore hbefore
    exact (not_before_both hbefore (hfirst k (by simp) hne)).elim

section Batched

variable [DecidableEq α] {pairs : List (α × β)} {gone kept : List α}

omit [Std.LawfulEqOrd α]

theorem Batched.sorted (hb : Batched lifetime now pairs s gone kept) (h : s.Consistent) :
    kept.Pairwise s.Before :=
  h.indexed.pairwise_toList.sublist hb.last.sublist

theorem Batched.isSome_live? (hb : Batched lifetime now pairs s gone kept) (hk : k ∈ kept) :
    (s.live? k now).isSome = true := by
  obtain ⟨e, he, -⟩ := hb.live k hk
  rw [he]
  rfl

/-- Whatever was used after a key of the batch is a key of the batch. -/
theorem Batched.mem_of_before (hb : Batched lifetime now pairs s gone kept) (h : s.Consistent)
    (bounded : 0 < s.recency.capacity) (hv : v ∈ kept) (hbefore : s.Before v k) : k ∈ kept := by
  obtain ⟨front, hlist⟩ := hb.last
  have hmem : k ∈ s.recency.toList := (h.indexed.mem_toList bounded).mpr
    (stored_of_before_right hbefore)
  have hsorted := h.indexed.pairwise_toList
  rw [← hlist, List.pairwise_append] at hsorted
  rw [← hlist, List.mem_append] at hmem
  exact hmem.resolve_left fun hfront => not_before_both hbefore (hsorted.2.2 k hfront v hv)

end Batched

section Batched

variable [DecidableEq α] {pairs : List (α × β)} {gone kept : List α}

/-- Of the keys of the batch that are not written again a write takes the first at most, and only if
the others and the one that is written fill the store. -/
theorem Batched.exists_lost (hb : Batched lifetime now pairs s gone kept) (h : s.Consistent)
    (bounded : 0 < s.recency.capacity) (key : α) (value : β) :
    ∃ lost, kept.filter (· ≠ key) =
        lost ++ (s.insert key value lifetime now).2.among (kept.filter (· ≠ key)) ∧
      (lost ≠ [] → s.recency.capacity ≤
        ((s.insert key value lifetime now).2.among (kept.filter (· ≠ key))).length + 1) := by
  have hroom := h.insert key value lifetime now
  have hrest : ∀ k ∈ kept.filter (· ≠ key), k ∈ kept ∧ k ≠ key := by simp
  generalize hkeys : kept.filter (· ≠ key) = keys at hrest
  have hsorted : keys.Pairwise s.Before := hkeys ▸ (hb.sorted h).sublist List.filter_sublist
  have hstays : ∀ k ∈ keys, k ∉ (s.insert key value lifetime now).1 →
      ((s.insert key value lifetime now).2.entries[k]?).isSome = true := by
    intro k hk hvictim
    have hlive := hb.isSome_live? (hrest k hk).1
    rw [← h.live?_insert_of_ne (hrest k hk).2 hvictim] at hlive
    obtain ⟨e, he⟩ := stored_of_live hlive
    rw [he]
    rfl
  by_cases hlost : ∃ v ∈ keys, v ∈ (s.insert key value lifetime now).1
  · obtain ⟨v, hv, hvictim⟩ := hlost
    obtain ⟨hkey, hmany, hfirst⟩ := h.before_of_victim hvictim
    obtain ⟨others, rfl⟩ := eq_cons_of_first hsorted hv fun k hk hkv =>
      hfirst k hkv (hrest k hk).2 (hb.isSome_live? (hrest k hk).1)
    have hothers : (s.insert key value lifetime now).2.among (v :: others) = others := by
      have hgone : (s.insert key value lifetime now).2.entries[v]? = none :=
        hroom.victim_gone v hvictim
      rw [among, List.filter_cons_of_neg (by simp [hgone]), List.filter_eq_self]
      intro k hk
      refine hstays k (List.mem_cons_of_mem v hk) fun hk' => ?_
      -- there is one victim only, and the keys are all different
      rw [(hroom.of_mem_victims hvictim).1, List.mem_singleton] at hk'
      exact (List.nodup_cons.mp (nodup_of_before hsorted)).1 (hk' ▸ hk)
    rw [hothers]
    refine ⟨[v], rfl, fun _ => ?_⟩
    -- whatever else is live was used after the victim, so it is one of these
    have hall : ∀ k, ((s.write key value lifetime now).live? k now).isSome = true →
        k ∈ key :: v :: others := by
      intro k hk
      by_cases hkkey : k = key
      · simp [hkkey]
      · by_cases hkv : k = v
        · simp [hkv]
        · rw [live?, getElem?_write_of_ne hkkey] at hk
          have hkept := hb.mem_of_before h bounded (hrest v hv).1 (hfirst k hkv hkkey hk)
          rw [← hkeys]
          exact List.mem_cons_of_mem key (List.mem_filter.mpr ⟨hkept, decide_eq_true hkkey⟩)
    have hlength := length_liveEntries_le_of_mem hall
    rw [List.length_cons, List.length_cons] at hlength
    omega
  · refine ⟨[], ?_, fun hne => absurd rfl hne⟩
    refine (List.filter_eq_self.mpr fun k hk => ?_).symm
    exact hstays k hk fun hvictim => hlost ⟨k, hk, hvictim⟩

/-- The keys that are left after a write come last in the order of use. -/
theorem Batched.last_insert (hb : Batched lifetime now pairs s gone kept) (h : s.Consistent)
    (bounded : 0 < s.recency.capacity) (hnow : now < .latest) (key : α) (value : β) :
    (s.insert key value lifetime now).2.among (kept.filter (· ≠ key)) ++ [key] <:+
      (s.insert key value lifetime now).2.recency.toList := by
  rw [h.toList_insert bounded hnow]
  obtain ⟨before, hbefore⟩ := (hb.last.filter (· ≠ key)).filter
    fun k => (s.insert key value lifetime now).2.entries[k]?.isSome
  exact ⟨before, by rw [← List.append_assoc, among, among, hbefore]⟩

/-- Each of them has the value of its last occurrence. -/
theorem Batched.live_insert (hb : Batched lifetime now pairs s gone kept) (h : s.Consistent)
    (hnow : now < .latest) (key : α) (value : β) :
    ∀ k ∈ (s.insert key value lifetime now).2.among (kept.filter (· ≠ key)) ++ [key],
      ∃ e, (s.insert key value lifetime now).2.live? k now = some e ∧
        (pairs ++ [(key, value)]).reverse.lookup k = some e.value ∧
        e.deadline = lifetime.deadline now := by
  intro k hk
  rw [List.reverse_append, List.reverse_singleton, List.singleton_append, List.lookup_cons]
  rcases List.mem_append.mp hk with hk | hk
  · obtain ⟨hmem, f, hf⟩ := mem_among.mp hk
    obtain ⟨hkept, hkey⟩ := List.mem_filter.mp hmem
    have hne : k ≠ key := by simpa using hkey
    have hstays : k ∉ (s.insert key value lifetime now).1 := by
      intro hvictim
      rw [(h.insert key value lifetime now).victim_gone k hvictim] at hf
      cases hf
    obtain ⟨e, he, hvalue, hdeadline⟩ := hb.live k hkept
    refine ⟨e, (h.live?_insert_of_ne hne hstays).trans he, ?_, hdeadline⟩
    rw [beq_eq_false_iff_ne.mpr hne]
    exact hvalue
  · have hwritten : (s.insert key value lifetime now).2.JustWritten key value lifetime now :=
      h.justWritten_insert (.inr hnow)
    obtain ⟨e, he, hvalue, hdeadline⟩ := hwritten.live
    rw [List.mem_singleton.mp hk, beq_self_eq_true]
    exact ⟨e, he, by rw [hvalue], hdeadline⟩

/-- One more pair. -/
theorem Batched.insert (hb : Batched lifetime now pairs s gone kept) (h : s.Consistent)
    (bounded : 0 < s.recency.capacity) (hnow : now < .latest) (key : α) (value : β) :
    ∃ gone' kept', Batched lifetime now (pairs ++ [(key, value)])
      (s.insert key value lifetime now).2 gone' kept' := by
  obtain ⟨lost, hsplit, hlost⟩ := hb.exists_lost h bounded key value
  have hlast := hb.last_insert h bounded hnow key value
  have hlive := hb.live_insert h hnow key value
  have hafter : (s.insert key value lifetime now).2.Consistent :=
    h.after (.insert key value lifetime now)
  have hcap : (s.insert key value lifetime now).2.recency.capacity = s.recency.capacity :=
    capacity_after h (.insert key value lifetime now)
  generalize (s.insert key value lifetime now).2 = t at *
  refine ⟨gone.filter (· ≠ key) ++ lost, t.among (kept.filter (· ≠ key)) ++ [key], ?_, ?_, hlast,
    hlive⟩
  · calc ((pairs ++ [(key, value)]).map (·.1)).dedup
        = (pairs.map (·.1)).dedup.filter (· ≠ key) ++ [key] := by
          rw [List.map_append, List.map_singleton, dedup_append_singleton]
      _ = gone.filter (· ≠ key) ++ kept.filter (· ≠ key) ++ [key] := by
          rw [hb.split, List.filter_append]
      _ = gone.filter (· ≠ key) ++ (lost ++ t.among (kept.filter (· ≠ key))) ++ [key] := by
          rw [← hsplit]
      _ = gone.filter (· ≠ key) ++ lost ++ (t.among (kept.filter (· ≠ key)) ++ [key]) := by
          simp only [List.append_assoc]
  · -- there is no room for more than these, and once a key is gone they fill the store
    intro hgone
    have hsorted := hafter.indexed.pairwise_toList.sublist hlast.sublist
    have hle := hafter.length_le (hcap ▸ bounded) (nodup_of_before hsorted) fun k hk => by
      obtain ⟨e, he, -⟩ := hlive k hk
      rw [he]
      rfl
    rw [hcap, List.length_append, List.length_singleton] at *
    refine Nat.le_antisymm hle ?_
    by_cases hnone : lost = []
    · subst hnone
      have hfull := hb.full fun hnil => hgone (by simp [hnil])
      have hsub : kept ⊆ key :: kept.filter (· ≠ key) := fun k hk => by
        by_cases hkey : k = key <;> simp [hkey, hk]
      have hlength := (List.subperm_of_subset (nodup_of_before (hb.sorted h)) hsub).length_le
      rwa [hsplit, List.nil_append, List.length_cons, hfull] at hlength
    · exact hlost hnone

/-- All pairs, one after the other. -/
theorem Consistent.batched (h : s.Consistent) (bounded : 0 < s.recency.capacity)
    (hnow : now < .latest) (lifetime : Lifetime) (pairs : List (α × β)) :
    ∃ gone kept, Batched lifetime now pairs
      (s.afterAll (pairs.map fun pair => .insert pair.1 pair.2 lifetime now)) gone kept := by
  -- the induction takes the last pair off: what was written before is what it may evict
  induction pairs using List.reverseRecOn with
  | nil => exact ⟨[], [], by simp, by simp, List.nil_suffix, by simp⟩
  | append_singleton pairs pair ih =>
    obtain ⟨gone, kept, hb⟩ := ih
    rw [List.map_append, afterAll_append]
    refine hb.insert (h.afterAll _) ?_ hnow pair.1 pair.2
    rwa [capacity_afterAll h]

/-- As many keys are left as there is room for. -/
theorem Batched.kept_eq (hb : Batched lifetime now pairs s gone kept) (h : s.Consistent)
    (bounded : 0 < s.recency.capacity) :
    kept = latest s.recency.capacity (pairs.map (·.1)) := by
  have hle := h.length_le bounded (nodup_of_before (hb.sorted h)) fun k hk => hb.isSome_live? hk
  have hgone : (gone ++ kept).length - s.recency.capacity = gone.length := by
    rw [List.length_append]
    by_cases hnil : gone = []
    · rw [hnil, List.length_nil]
      omega
    · rw [hb.full hnil]
      omega
  rw [latest, List.rtake, hb.split, hgone, List.drop_left]

/-- If the keys of the batch fill the store, it holds nothing else. -/
theorem Batched.toList_eq (hb : Batched lifetime now pairs s gone kept) (h : s.Consistent)
    (bounded : 0 < s.recency.capacity)
    (hmany : s.recency.capacity ≤ (pairs.map (·.1)).dedup.length) : s.recency.toList = kept := by
  have hfull : s.recency.capacity ≤ kept.length := by
    by_cases hnil : gone = []
    · rwa [hb.split, hnil] at hmany
    · exact Nat.le_of_eq (hb.full hnil).symm
  -- the list has no repetitions, so it is no longer than the store is large
  have hsub : s.recency.toList ⊆ s.entries.keys := fun k hk => by
    obtain ⟨e, he⟩ := (h.indexed.mem_toList bounded).mp hk
    simp [Std.ExtTreeMap.mem_iff_isSome_getElem?, he]
  have hlength :=
    (List.subperm_of_subset (nodup_of_before h.indexed.pairwise_toList) hsub).length_le
  rw [Std.ExtTreeMap.length_keys] at hlength
  have hfits := fits_iff.mp h.fits
  exact (hb.last.eq_of_length_le (by omega)).symm

end Batched

end Store

/-! ## The batch -/

/-- A batch of which every value is present. -/
def present (pairs : List (α × β)) : List (α × Option β) :=
  pairs.map fun pair => (pair.1, some pair.2)

namespace Cache

variable [DecidableEq α] {c : Cache α β} {lifetime : Lifetime} {now : Instant}

/-- What a cache of the given capacity holds after a batch of pairs. -/
structure KeepsLatest (capacity : Nat) (pairs : List (α × β)) (lifetime : Lifetime)
    (now : Instant) (c : Cache α β) : Prop where
  /-- All different keys of the batch, or as many as there is room for. -/
  length_eq : (latest capacity (pairs.map (·.1))).length =
    min capacity (pairs.map (·.1)).dedup.length
  ordered : (latest capacity (pairs.map (·.1))).Pairwise (LastUsedBefore (pairs.map (·.1)))
  /-- The other keys of the batch occur last before any of these does. -/
  earlier : ∀ a ∈ pairs.map (·.1), a ∉ latest capacity (pairs.map (·.1)) →
    ∀ b ∈ latest capacity (pairs.map (·.1)), LastUsedBefore (pairs.map (·.1)) a b
  /-- The keys that occur last in the batch are live, each with the value of its last occurrence. -/
  live : ∀ k ∈ latest capacity (pairs.map (·.1)), ∃ e, c.store.live? k now = some e ∧
    pairs.reverse.lookup k = some e.value ∧ e.deadline = lifetime.deadline now
  /-- They come last in the order of use, in the order of their last occurrences. -/
  last : latest capacity (pairs.map (·.1)) <:+ c.store.recency.toList
  /-- If there are as many of them as there is room for, nothing else is stored. -/
  only : capacity ≤ (pairs.map (·.1)).dedup.length →
    c.store.recency.toList = latest capacity (pairs.map (·.1)) ∧
      ∀ (k : α) (e : Entry β), c.store.entries[k]? = some e → k ∈ latest capacity (pairs.map (·.1))
  /-- No touch is pending that would change the order. -/
  untouched : c.touches.toList = []

theorem Consistent.keepsLatest (h : c.Consistent) (hopen : c.closed = false)
    (bounded : 0 < c.store.recency.capacity) (hlifetime : 0 ≤ lifetime.ns) (hnow : now < .latest)
    (pairs : List (α × β)) :
    KeepsLatest c.store.recency.capacity pairs lifetime now
      (c.setAll (present pairs) lifetime now).cache := by
  have hdeeds : (present pairs).map (fun item => Deed.put item.1 item.2 lifetime now) =
      pairs.map fun pair => .insert pair.1 pair.2 lifetime now := by
    rw [present, List.map_map]
    refine List.map_congr_left fun pair _ => ?_
    simp [Deed.put, storable?, Lifetime.isStorable, hlifetime]
  have hcache : (c.setAll (present pairs) lifetime now).cache =
      c.after (.write (pairs.map fun pair => .insert pair.1 pair.2 lifetime now)) := by
    rw [← hdeeds]
    exact (cache_perform c (.setAll _ lifetime) now).trans (by simp [Operation.effect, writes,
      Operation.deeds, hopen])
  have hafter := h.settled.afterAll (pairs.map fun pair => Deed.insert pair.1 pair.2 lifetime now)
  have hcap : (c.settled.afterAll (pairs.map fun pair =>
      Deed.insert pair.1 pair.2 lifetime now)).recency.capacity = c.store.recency.capacity :=
    (Store.capacity_afterAll h.settled _).trans capacity_settled
  have hbounded : 0 < c.settled.recency.capacity := by rwa [capacity_settled]
  obtain ⟨gone, kept, hb⟩ := h.settled.batched hbounded hnow lifetime pairs
  have hkept := hb.kept_eq hafter (hcap ▸ bounded)
  rw [hcap] at hkept
  rw [hcache]
  have hstore : (c.after (.write (pairs.map fun pair =>
      Deed.insert pair.1 pair.2 lifetime now))).store = _ := store_after_write hopen _
  constructor
  · exact latest_length _ _
  · exact latest_pairwise _ _
  · exact fun a ha hnot b hb => latest_earlier ha hnot hb
  · rw [hstore, ← hkept]
    exact hb.live
  · rw [hstore, ← hkept]
    exact hb.last
  · intro hmany
    have hlist := hb.toList_eq hafter (hcap ▸ bounded) (hcap ▸ hmany)
    rw [hstore, ← hkept]
    refine ⟨hlist, fun k e he => ?_⟩
    rw [← hlist]
    exact (hafter.indexed.mem_toList (hcap ▸ bounded)).mpr ⟨e, he⟩
  · exact untouched_after h.untouched hopen rfl

/-- In every open state that a run of sections leads to, a batch of present values leaves the keys
that occur last in it, as many as there is room for. It may have any length and repeat any key. -/
theorem keepsLatest_of_reachable {capacity : Nat} (bounded : 0 < capacity) (batch : Nat)
    (sweeper : Option Nat) (run : List (Section α β × Instant))
    (hopen : ({ (empty capacity batch : Cache α β) with sweeper }.enactAll run).closed = false)
    (pairs : List (α × β)) {lifetime : Lifetime} (hlifetime : 0 ≤ lifetime.ns) {now : Instant}
    (hnow : now < .latest) :
    KeepsLatest capacity pairs lifetime now
      (({ (empty capacity batch : Cache α β) with sweeper }.enactAll run).setAll (present pairs)
        lifetime now).cache := by
  have hempty : { (empty capacity batch : Cache α β) with sweeper }.Consistent :=
    consistent_start capacity batch sweeper
  have hcap : ({ (empty capacity batch : Cache α β) with sweeper }.enactAll
      run).store.recency.capacity = capacity := capacity_enactAll hempty run
  have hkeeps := (hempty.enactAll run).keepsLatest hopen (by rwa [hcap]) hlifetime hnow pairs
  rwa [hcap] at hkeeps

/-- Two keys of a batch are evicted in the course of it and written again. One entry had expired
before, and a hit of another was still pending. -/
theorem keepsLatest_of_repeated_keys :
    let run : List (Section Nat Nat × Instant) :=
      [(.perform (.set 1 (some 9) (.ofMillis 2)), .clamp 0),
        (.perform (.set 5 (some 50) .forever), .clamp 1), (.perform (.get 5), .clamp 1)]
    let c := { (empty 2 1 : Cache Nat Nat) with sweeper := none }.enactAll run
    let pairs := [(1, 10), (2, 20), (3, 30), (1, 11), (2, 21)]
    let d := (c.setAll (present pairs) (.ofMillis 4) (.clamp 6)).cache
    c.closed = false ∧ c.settled.recency.toList = [1, 5] ∧
      latest 2 (pairs.map (·.1)) = [1, 2] ∧ (d.pairs (.clamp 6)).answer = [(1, 11), (2, 21)] ∧
      KeepsLatest 2 pairs (.ofMillis 4) (.clamp 6) d := by
  intro run c pairs d
  have hopen : c.closed = false := by decide +kernel
  refine ⟨hopen, by decide +kernel, by decide +kernel, ?_,
    keepsLatest_of_reachable (by decide) 1 none run hopen pairs (by decide) (by decide)⟩
  clear hopen
  subst d pairs c run
  cbv

end Cache

end ExpiringCache
