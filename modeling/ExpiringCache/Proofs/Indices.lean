import ExpiringCache.Proofs.DeadlinePairs
import ExpiringCache.Entry
import ExpiringCache.Recency

/-!
# Entries and their indices

A store keeps beside its entries an index of their deadlines and their order of use. Here is what
it means that an index fits the entries, and how it goes on to fit when one entry is written,
replaced or erased.

1. **Deadlines** (`Dated`): the index holds the deadline of every entry that has one, and nothing
   else.
2. **Positions** (`Ranked`): the order of use holds the position of every entry, and nothing else;
   entries have positions exactly where a bound is kept.

Each of the two relates the entries to one index only, so that an operation which leaves an index
alone has nothing to show for it.
-/

namespace ExpiringCache

variable {α β : Type} [Ord α] [Std.TransOrd α]

/-- The index holds the deadlines of the entries and nothing else. -/
structure Dated (entries : Std.ExtTreeMap α (Entry β)) (deadlines : Deadlines α) : Prop where
  wellFormed : deadlines.WellFormed
  holds_iff : ∀ (key : α) (t : Instant),
    deadlines.Holds key t ↔ entries[key]?.bind (·.deadline) = some t

/-- The order of use holds the positions of the entries and nothing else. -/
structure Ranked (entries : Std.ExtTreeMap α (Entry β)) (recency : Recency α) : Prop where
  order_iff : ∀ (p : Nat) (key : α),
    recency.order[p]? = some key ↔ entries[key]?.bind (·.position) = some p
  placed_iff : ∀ (key : α) (e : Entry β),
    entries[key]? = some e → (e.position.isSome ↔ 0 < recency.capacity)
  lt_next : ∀ (p : Nat) (key : α), recency.order[p]? = some key → p < recency.next
  next_eq_zero : recency.capacity = 0 → recency.next = 0

variable {entries : Std.ExtTreeMap α (Entry β)} {deadlines : Deadlines α} {recency : Recency α}

theorem getElem?_insert_of_ne [Std.LawfulEqOrd α] {γ : Type} {m : Std.ExtTreeMap α γ} {key k : α}
    {v : γ} (h : k ≠ key) : (m.insert key v)[k]? = m[k]? := by
  rw [Std.ExtTreeMap.getElem?_insert, if_neg (by simpa using Ne.symm h)]

theorem getElem?_erase_of_ne [Std.LawfulEqOrd α] {γ : Type} {m : Std.ExtTreeMap α γ} {key k : α}
    (h : k ≠ key) : (m.erase key)[k]? = m[k]? := by
  rw [Std.ExtTreeMap.getElem?_erase, if_neg (by simpa using Ne.symm h)]

/-- Entries picked from a map have different keys. -/
theorem nodup_keys_filter [Std.LawfulEqOrd α] {γ : Type} (m : Std.ExtTreeMap α γ)
    (p : α × γ → Bool) : ((m.toList.filter p).map (·.1)).Nodup := by
  refine (List.filter_sublist.map _).nodup ?_
  rw [Std.ExtTreeMap.map_fst_toList_eq_keys]
  exact Std.ExtTreeMap.nodup_keys

/-! ## Entries and deadlines -/

theorem Deadlines.reschedule_self (d : Deadlines α) (key : α) (at? : Option Instant) :
    d.reschedule key at? at? = d := by
  simp [Deadlines.reschedule]

section Dated

variable [Std.LawfulEqOrd α]

omit [Std.LawfulEqOrd α] in
theorem dated_empty : Dated (∅ : Std.ExtTreeMap α (Entry β)) .empty where
  wellFormed := Deadlines.wellFormed_empty
  holds_iff key t := by simp [Deadlines.not_holds_empty]

theorem Dated.insert (h : Dated entries deadlines) (key : α) (e : Entry β) :
    Dated (entries.insert key e)
      (deadlines.reschedule key (entries[key]?.bind (·.deadline)) e.deadline) where
  wellFormed := h.wellFormed.reschedule ..
  holds_iff k t := by
    rw [Deadlines.holds_reschedule (h.holds_iff key), h.holds_iff]
    by_cases hk : k = key
    · subst hk
      simp
    · simp [hk, getElem?_insert_of_ne hk]

omit [Std.LawfulEqOrd α] in
/-- A key is over at one moment only, so that pairs of the index have different keys. -/
theorem Dated.nodup_keys (h : Dated entries deadlines) {pairs : List (Instant × α)}
    (hnodup : pairs.Nodup) (hholds : ∀ pair ∈ pairs, deadlines.Holds pair.2 pair.1) :
    (pairs.map (·.2)).Nodup := by
  refine hnodup.map_on ?_
  rintro ⟨t, key⟩ ht ⟨u, k⟩ hu rfl
  have ht' := (h.holds_iff key t).mp (hholds _ ht)
  have hu' := (h.holds_iff key u).mp (hholds _ hu)
  rw [ht'] at hu'
  rw [Option.some.inj hu']

/-- An entry may be replaced by one with the same deadline. -/
theorem Dated.replace (h : Dated entries deadlines) {key : α} {e : Entry β}
    (he : entries[key]?.bind (·.deadline) = e.deadline) :
    Dated (entries.insert key e) deadlines := by
  have := h.insert key e
  rwa [he, Deadlines.reschedule_self] at this

theorem Dated.erase (h : Dated entries deadlines) {key : α} {e : Entry β}
    (he : entries[key]? = some e) :
    Dated (entries.erase key) (e.deadline.elim deadlines (deadlines.erase key)) := by
  have hkey : ∀ t, deadlines.Holds key t ↔ e.deadline = some t := by
    intro t
    rw [h.holds_iff, he, Option.bind_some]
  constructor
  · cases e.deadline with
    | none => exact h.wellFormed
    | some t => exact h.wellFormed.erase key t
  · intro k u
    by_cases hk : k = key
    · subst hk
      cases ht : e.deadline with
      | none => simp [hkey, ht]
      | some t => simp [Deadlines.holds_erase, hkey, ht, eq_comm]
    · rw [getElem?_erase_of_ne hk, ← h.holds_iff]
      cases e.deadline with
      | none => rfl
      | some t => simp [Deadlines.holds_erase, hk]

end Dated

/-! ## Entries and positions -/

section Ranked

theorem ranked_empty (capacity : Nat) :
    Ranked (∅ : Std.ExtTreeMap α (Entry β)) (.empty capacity) where
  order_iff p key := by simp [Recency.empty]
  placed_iff key e h := by simp at h
  lt_next p key h := by simp [Recency.empty] at h
  next_eq_zero _ := rfl

/-- Where a bound is kept, every entry has its place in the order. -/
theorem Ranked.position (h : Ranked entries recency) (bounded : 0 < recency.capacity) {key : α}
    {e : Entry β} (he : entries[key]? = some e) :
    ∃ p, e.position = some p ∧ recency.order[p]? = some key := by
  obtain ⟨p, hp⟩ := Option.isSome_iff_exists.mp ((h.placed_iff key e he).mpr bounded)
  exact ⟨p, hp, (h.order_iff p key).mpr (by rw [he, Option.bind_some, hp])⟩

/-- A key in the order has an entry that says so. -/
theorem Ranked.entry (h : Ranked entries recency) {p : Nat} {key : α}
    (hp : recency.order[p]? = some key) :
    ∃ e, entries[key]? = some e ∧ e.position = some p :=
  Option.bind_eq_some_iff.mp ((h.order_iff p key).mp hp)

/-- Without a bound no order is kept. -/
theorem Ranked.order_eq_empty (h : Ranked entries recency) (unbounded : recency.capacity = 0) :
    recency.order = ∅ := by
  apply Std.ExtTreeMap.ext_getElem?
  intro p
  cases hp : recency.order[p]? with
  | none => simp
  | some key =>
    obtain ⟨e, he, hpos⟩ := h.entry hp
    have := (h.placed_iff key e he).mp (by simp [hpos])
    omega

variable [Std.LawfulEqOrd α]

/-- A key that is used, stored before or not, goes to the end of the order. -/
theorem Ranked.touch (h : Ranked entries recency) (bounded : 0 < recency.capacity) (key : α)
    (e : Entry β) :
    Ranked (entries.insert key { e with position := some recency.next })
      (recency.touch key (entries[key]?.bind (·.position))).2 where
  order_iff p k := by
    rw [Recency.getElem?_order_touch]
    -- positions only grow, so the new one is free
    have hnext : recency.order[recency.next]? ≠ some k := fun hn =>
      Nat.lt_irrefl _ (h.lt_next _ k hn)
    by_cases hk : k = key
    · subst hk
      have := h.order_iff p k
      by_cases hp : p = recency.next
      · simp [hp]
      · rw [if_neg hp]
        by_cases hc : entries[k]?.bind (·.position) = some p
        · simp [hc, Ne.symm hp]
        · simp [hc, Ne.symm hp, this]
    · rw [getElem?_insert_of_ne hk, ← h.order_iff p k]
      by_cases hp : p = recency.next
      · subst hp
        simp [hnext, Ne.symm hk]
      · rw [if_neg hp]
        by_cases hc : entries[key]?.bind (·.position) = some p
        · rw [if_pos hc, (h.order_iff p key).mpr hc]
          simp [Ne.symm hk]
        · rw [if_neg hc]
  placed_iff k e' he' := by
    rw [Std.ExtTreeMap.getElem?_insert] at he'
    split at he'
    · cases he'
      simpa [Recency.touch] using bounded
    · exact h.placed_iff k e' he'
  lt_next p k hp := by
    rw [Recency.getElem?_order_touch] at hp
    show p < recency.next + 1
    split at hp
    · omega
    · split at hp
      · cases hp
      · exact Nat.lt_succ_of_lt (h.lt_next p k hp)
  next_eq_zero h0 := absurd bounded (by simp [show recency.capacity = 0 from h0])

/-- An entry may be replaced by one at the same position. -/
theorem Ranked.replace (h : Ranked entries recency) {key : α} {e : Entry β}
    (he : entries[key]?.bind (·.position) = e.position)
    (hplaced : e.position.isSome ↔ 0 < recency.capacity) :
    Ranked (entries.insert key e) recency where
  order_iff p k := by
    rw [h.order_iff]
    by_cases hk : k = key
    · subst hk
      simp [he]
    · rw [getElem?_insert_of_ne hk]
  placed_iff k e' he' := by
    rw [Std.ExtTreeMap.getElem?_insert] at he'
    split at he'
    · cases he'
      exact hplaced
    · exact h.placed_iff k e' he'
  lt_next := h.lt_next
  next_eq_zero := h.next_eq_zero

theorem Ranked.erase (h : Ranked entries recency) {key : α} {e : Entry β}
    (he : entries[key]? = some e) :
    Ranked (entries.erase key)
      (e.position.elim recency fun position => (recency.remove position).2) := by
  have hkey : ∀ p, recency.order[p]? = some key ↔ e.position = some p := by
    intro p
    rw [h.order_iff, he, Option.bind_some]
  have hcap : (e.position.elim recency fun position => (recency.remove position).2).capacity =
      recency.capacity := by cases e.position <;> rfl
  have hnext : (e.position.elim recency fun position => (recency.remove position).2).next =
      recency.next := by cases e.position <;> rfl
  -- with or without a position, no place but its own is given up
  have horder : ∀ p, (e.position.elim recency fun position =>
      (recency.remove position).2).order[p]? =
        if e.position = some p then none else recency.order[p]? := by
    intro p
    cases e.position with
    | none => rfl
    | some q => simp [Recency.getElem?_order_remove, eq_comm]
  constructor
  · intro p k
    rw [horder]
    by_cases hk : k = key
    · subst hk
      by_cases hp : e.position = some p
      · simp [hp]
      · simp [hp, hkey]
    · rw [getElem?_erase_of_ne hk, ← h.order_iff p k]
      by_cases hp : e.position = some p
      · simp [hp, (hkey p).mpr hp, Ne.symm hk]
      · simp [hp]
  · intro k e' he'
    rw [hcap]
    rw [Std.ExtTreeMap.getElem?_erase] at he'
    split at he'
    · cases he'
    · exact h.placed_iff k e' he'
  · intro p k hp
    rw [hnext]
    rw [horder] at hp
    split at hp
    · cases hp
    · exact h.lt_next p k hp
  · rw [hcap, hnext]
    exact h.next_eq_zero

end Ranked

end ExpiringCache
