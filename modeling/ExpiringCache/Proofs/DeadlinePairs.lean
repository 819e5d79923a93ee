import ExpiringCache.Deadlines
import Mathlib.Data.List.Nodup

/-!
# The deadlines as a set of pairs

`Deadlines` keeps one bucket of keys per moment and a number beside them. Here it is looked at as
what it stands for, a finite set of pairs of a moment and a key.

1. **The pairs** (`Deadlines.pairs`): listed bucket by bucket, without repetition, and exactly the
   ones that the index holds (`mem_pairs`, `nodup_pairs`).
2. **Well-formed indices** (`Deadlines.WellFormed`): no bucket is empty and the stored number is
   the number of pairs. Every change keeps it.
3. **Due pairs** (`mem_due`, `length_due`): the pairs up to a moment, however the keys of a bucket
   are arranged, and as many as `countDue` says.
4. **Taking** (`holds_takeDue`): the pairs taken are gone and no other.
-/

namespace ExpiringCache

/-- On a list where the predicate never comes back once it is lost, the first stretch is all there
is. -/
theorem takeWhile_eq_filter {γ : Type} {p : γ → Bool} {l : List γ}
    (h : l.Pairwise fun a b => p b = true → p a = true) : l.takeWhile p = l.filter p := by
  induction l with
  | nil => rfl
  | cons a l ih =>
    obtain ⟨ha, hl⟩ := List.pairwise_cons.mp h
    by_cases hp : p a = true
    · rw [List.takeWhile_cons_of_pos hp, List.filter_cons_of_pos hp, ih hl]
    · have hnone : l.filter p = [] := by
        rw [List.filter_eq_nil_iff]
        exact fun b hb hpb => hp (ha b hb hpb)
      rw [List.takeWhile_cons_of_neg hp, List.filter_cons_of_neg hp, hnone]

namespace Deadlines

variable {α : Type} [Ord α] [Std.TransOrd α]

/-- The pairs in a row of buckets, the keys of each bucket as arranged. -/
def pairsOf (order : Arrangement α) (buckets : List (Instant × Std.ExtTreeSet α)) :
    List (Instant × α) :=
  buckets.flatMap fun bucket =>
    (order.arrange bucket.1 bucket.2.toList).map fun key => (bucket.1, key)

/-- All pairs of the index. -/
def pairs (d : Deadlines α) : List (Instant × α) := pairsOf .asListed d.buckets.toList

/-- No bucket is empty, and the stored number is the number of pairs. -/
structure WellFormed (d : Deadlines α) : Prop where
  bucket_ne_empty : ∀ (t : Instant) (bucket : Std.ExtTreeSet α),
    d.buckets[t]? = some bucket → bucket ≠ ∅
  count_eq : d.count = d.pairs.length

variable [Std.LawfulEqOrd α] {d : Deadlines α} {order : Arrangement α} {key : α}
  {t now : Instant}

/-! ## Rows of buckets -/

theorem mem_pairsOf {buckets : List (Instant × Std.ExtTreeSet α)} :
    (t, key) ∈ pairsOf order buckets ↔
      ∃ bucket, (t, bucket) ∈ buckets ∧ key ∈ bucket := by
  simp only [pairsOf, List.mem_flatMap, List.mem_map, Prod.mk.injEq]
  constructor
  · rintro ⟨⟨u, bucket⟩, hb, k, hk, rfl, rfl⟩
    refine ⟨bucket, hb, ?_⟩
    simpa using (order.perm u _).mem_iff.mp hk
  · rintro ⟨bucket, hb, hk⟩
    exact ⟨(t, bucket), hb, key, (order.perm t _).mem_iff.mpr (by simpa using hk), rfl, rfl⟩

omit [Std.LawfulEqOrd α] in
theorem nodup_pairsOf {buckets : List (Instant × Std.ExtTreeSet α)}
    (h : buckets.Pairwise fun a b => a.1 ≠ b.1) : (pairsOf order buckets).Nodup := by
  rw [pairsOf, List.nodup_flatMap]
  constructor
  · rintro ⟨u, bucket⟩ -
    refine List.Nodup.map (fun a b hab => (Prod.mk.inj hab).2) ?_
    refine (order.perm u _).nodup_iff.mpr ?_
    exact bucket.distinct_toList.imp Std.ReflCmp.ne_of_cmp_ne_eq
  · refine h.imp ?_
    rintro ⟨u, b⟩ ⟨u', b'⟩ hne
    simp only [Function.onFun, List.disjoint_left, List.mem_map]
    rintro _ ⟨k, -, rfl⟩ ⟨k', -, h'⟩
    exact hne (Prod.mk.inj h').1.symm

omit [Std.LawfulEqOrd α] in
theorem length_pairsOf {buckets : List (Instant × Std.ExtTreeSet α)} :
    (pairsOf order buckets).length = buckets.foldr (fun bucket n => bucket.2.size + n) 0 := by
  induction buckets with
  | nil => rfl
  | cons bucket buckets ih =>
    have hp := (order.perm bucket.1 bucket.2.toList).length_eq
    simp only [pairsOf, List.flatMap_cons, List.length_append, List.length_map] at ih ⊢
    rw [ih, hp, Std.ExtTreeSet.length_toList, List.foldr_cons]

omit [Std.TransOrd α] [Std.LawfulEqOrd α] in
theorem buckets_distinct (d : Deadlines α) :
    d.buckets.toList.Pairwise fun a b => a.1 ≠ b.1 :=
  d.buckets.distinct_keys_toList.imp fun h he => h (by rw [he]; exact Std.ReflOrd.compare_self)

/-! ## All pairs -/

theorem mem_pairs : (t, key) ∈ d.pairs ↔ d.Holds key t := by
  simp [pairs, mem_pairsOf, Holds]

omit [Std.LawfulEqOrd α] in
theorem nodup_pairs (d : Deadlines α) : d.pairs.Nodup := nodup_pairsOf d.buckets_distinct

omit [Std.LawfulEqOrd α] in
theorem wellFormed_empty : (empty : Deadlines α).WellFormed where
  bucket_ne_empty t bucket h := by simp [empty] at h
  count_eq := by
    have h : (∅ : Std.ExtTreeMap Instant (Std.ExtTreeSet α)).toList = [] := by simp
    simp [empty, pairs, pairsOf, h]

theorem pairs_insert_perm (h : ¬ d.Holds key t) :
    (d.insert key t).pairs.Perm ((t, key) :: d.pairs) := by
  have hnew : (t, key) ∉ d.pairs := fun hm => h (mem_pairs.mp hm)
  rw [List.perm_ext_iff_of_nodup (nodup_pairs _) (List.nodup_cons.mpr ⟨hnew, nodup_pairs d⟩)]
  rintro ⟨u, k⟩
  rw [mem_pairs, holds_insert, List.mem_cons, mem_pairs, Prod.mk.injEq]
  tauto

theorem pairs_erase_perm (h : d.Holds key t) :
    d.pairs.Perm ((t, key) :: (d.erase key t).pairs) := by
  have hgone : (t, key) ∉ (d.erase key t).pairs := fun hm =>
    (holds_erase.mp (mem_pairs.mp hm)).2 ⟨rfl, rfl⟩
  rw [List.perm_ext_iff_of_nodup (nodup_pairs d) (List.nodup_cons.mpr ⟨hgone, nodup_pairs _⟩)]
  rintro ⟨u, k⟩
  rw [mem_pairs, List.mem_cons, mem_pairs, holds_erase, Prod.mk.injEq]
  constructor
  · intro hk
    by_cases he : k = key ∧ u = t
    · exact .inl ⟨he.2, he.1⟩
    · exact .inr ⟨hk, he⟩
  · rintro (⟨rfl, rfl⟩ | ⟨hk, -⟩)
    · exact h
    · exact hk

theorem WellFormed.insert (h : d.WellFormed) (key : α) (t : Instant) :
    (d.insert key t).WellFormed := by
  by_cases hm : key ∈ d.buckets[t]?.getD ∅
  · rwa [show d.insert key t = d by simp [Deadlines.insert, hm]]
  · have hnot : ¬ d.Holds key t := by
      rintro ⟨bucket, hb, hk⟩
      exact hm (by simpa [hb] using hk)
    constructor
    · intro u bucket hb
      simp only [Deadlines.insert, hm, if_false, Std.ExtTreeMap.getElem?_insert] at hb
      split at hb
      · cases hb
        simp
      · exact h.bucket_ne_empty u bucket hb
    · rw [(pairs_insert_perm hnot).length_eq, List.length_cons, ← h.count_eq]
      simp [Deadlines.insert, hm]

theorem WellFormed.erase (h : d.WellFormed) (key : α) (t : Instant) :
    (d.erase key t).WellFormed := by
  cases hb : d.buckets[t]? with
  | none => rwa [show d.erase key t = d by simp [Deadlines.erase, hb]]
  | some bucket =>
    by_cases hk : key ∈ bucket
    · constructor
      · intro u rest hu
        simp only [Deadlines.erase, hb, hk, if_true] at hu
        -- a bucket that would be left empty is dropped
        by_cases he : (bucket.erase key).isEmpty = true
        · rw [if_pos he, Std.ExtTreeMap.getElem?_erase] at hu
          split at hu
          · cases hu
          · exact h.bucket_ne_empty u rest hu
        · rw [if_neg he, Std.ExtTreeMap.getElem?_insert] at hu
          split at hu
          · cases hu
            simpa using he
          · exact h.bucket_ne_empty u rest hu
      · have hlen := (pairs_erase_perm ⟨bucket, hb, hk⟩).length_eq
        rw [List.length_cons, ← h.count_eq] at hlen
        have hcount : (d.erase key t).count = d.count - 1 := by simp [Deadlines.erase, hb, hk]
        omega
    · rwa [show d.erase key t = d by simp [Deadlines.erase, hb, hk]]

theorem WellFormed.reschedule (h : d.WellFormed) (key : α) (old new : Option Instant) :
    (d.reschedule key old new).WellFormed := by
  unfold Deadlines.reschedule
  split
  · exact h
  · cases old with
    | none =>
      cases new with
      | none => exact h
      | some u => exact h.insert key u
    | some t =>
      cases new with
      | none => exact h.erase key t
      | some u => exact (h.erase key t).insert key u

/-- If `old` is the one moment at which the index holds a key, `new` is the one afterwards, and
nothing else changes. -/
theorem holds_reschedule {old new : Option Instant} (h : ∀ u, d.Holds key u ↔ old = some u)
    {k : α} {u : Instant} :
    (d.reschedule key old new).Holds k u ↔
      k = key ∧ new = some u ∨ k ≠ key ∧ d.Holds k u := by
  unfold reschedule
  split
  · rename_i he
    subst he
    by_cases hk : k = key
    · subst hk
      simp [h]
    · simp [hk]
  · by_cases hk : k = key
    · subst hk
      have hu := h u
      cases old <;> cases new <;> simp_all [holds_insert, holds_erase, eq_comm]
    · cases old <;> cases new <;> simp [holds_insert, holds_erase, hk]

/-- No bucket is empty, so a well-formed index is given by the pairs that it holds. -/
theorem WellFormed.ext {e : Deadlines α} (h : d.WellFormed) (he : e.WellFormed)
    (hholds : ∀ (key : α) (t : Instant), d.Holds key t ↔ e.Holds key t) : d = e := by
  have hsub : ∀ {d e : Deadlines α}, d.WellFormed →
      (∀ (key : α) (t : Instant), d.Holds key t ↔ e.Holds key t) →
        ∀ (t : Instant) (bucket : Std.ExtTreeSet α), d.buckets[t]? = some bucket →
          e.buckets[t]? = some bucket := by
    intro d e h hholds t bucket hb
    have hne := h.bucket_ne_empty t bucket hb
    rw [ne_eq, Std.ExtTreeSet.eq_empty_iff_forall_not_mem, not_forall_not] at hne
    obtain ⟨key, hkey⟩ := hne
    obtain ⟨other, hother, -⟩ := (hholds key t).mp ⟨bucket, hb, hkey⟩
    rw [hother, Option.some.injEq]
    refine Std.ExtTreeSet.ext_mem fun k => ?_
    have hk := hholds k t
    simpa [Holds, hb, hother] using hk.symm
  have hbuckets : d.buckets = e.buckets := by
    apply Std.ExtTreeMap.ext_getElem?
    intro t
    apply Option.ext
    exact fun bucket => ⟨hsub h hholds t bucket, hsub he (fun k u => (hholds k u).symm) t bucket⟩
  have hpairs : d.pairs = e.pairs := by rw [pairs, pairs, hbuckets]
  have hcount : d.count = e.count := by rw [h.count_eq, he.count_eq, hpairs]
  cases d
  cases e
  simp only at hbuckets hcount
  rw [hbuckets, hcount]

/-! ## Due pairs -/

omit [Std.TransOrd α] [Std.LawfulEqOrd α] in
theorem dueBuckets_eq_filter (d : Deadlines α) (now : Instant) :
    d.dueBuckets now = d.buckets.toList.filter fun bucket => decide (bucket.1 ≤ now) := by
  refine takeWhile_eq_filter (d.buckets.ordered_keys_toList.imp ?_)
  intro a b hab hb
  rw [Instant.compare_def, Int.compare_eq_lt] at hab
  have hle : b.1.ms ≤ now.ms := of_decide_eq_true hb
  exact decide_eq_true (show a.1.ms ≤ now.ms by omega)

/-- The due pairs are those of moments that have come. -/
theorem mem_due : (t, key) ∈ d.due order now ↔ d.Holds key t ∧ t ≤ now := by
  show (t, key) ∈ pairsOf order (d.dueBuckets now) ↔ _
  simp only [mem_pairsOf, dueBuckets_eq_filter, List.mem_filter, decide_eq_true_eq, Holds,
    Std.ExtTreeMap.mem_toList_iff_getElem?_eq_some]
  constructor
  · rintro ⟨bucket, ⟨hb, ht⟩, hk⟩
    exact ⟨⟨bucket, hb, hk⟩, ht⟩
  · rintro ⟨⟨bucket, hb, hk⟩, ht⟩
    exact ⟨bucket, ⟨hb, ht⟩, hk⟩

omit [Std.LawfulEqOrd α] in
theorem nodup_due (d : Deadlines α) (order : Arrangement α) (now : Instant) :
    (d.due order now).Nodup := by
  show (pairsOf order (d.dueBuckets now)).Nodup
  rw [dueBuckets_eq_filter]
  exact nodup_pairsOf (d.buckets_distinct.filter _)

omit [Std.LawfulEqOrd α] in
theorem length_due (d : Deadlines α) (order : Arrangement α) (now : Instant) :
    (d.due order now).length = d.countDue now :=
  length_pairsOf

/-! ## Taking due pairs -/

/-- The pairs that `takeDue` removes. -/
def taken (d : Deadlines α) (order : Arrangement α) (now : Instant) (limit : Option Nat) :
    List (Instant × α) :=
  limit.elim (d.due order now) (d.due order now).take

omit [Std.LawfulEqOrd α] in
theorem takeDue_fst (d : Deadlines α) (order : Arrangement α) (now : Instant)
    (limit : Option Nat) :
    (d.takeDue order now limit).1 = (d.taken order now limit).map (·.2) := rfl

omit [Std.LawfulEqOrd α] in
theorem taken_sublist (d : Deadlines α) (order : Arrangement α) (now : Instant)
    (limit : Option Nat) : (d.taken order now limit).Sublist (d.due order now) := by
  cases limit with
  | none => exact .refl _
  | some n => exact List.take_sublist n _

omit [Std.LawfulEqOrd α] in
theorem nodup_taken (d : Deadlines α) (order : Arrangement α) (now : Instant)
    (limit : Option Nat) : (d.taken order now limit).Nodup :=
  (d.nodup_due order now).sublist (d.taken_sublist order now limit)

theorem holds_of_mem_taken {limit : Option Nat} (h : (t, key) ∈ d.taken order now limit) :
    d.Holds key t ∧ t ≤ now :=
  mem_due.mp ((d.taken_sublist order now limit).subset h)

theorem holds_eraseAll {gone : List (Instant × α)} :
    (gone.foldl (fun d pair => d.erase pair.2 pair.1) d).Holds key t ↔
      d.Holds key t ∧ (t, key) ∉ gone := by
  induction gone generalizing d with
  | nil => simp
  | cons pair gone ih =>
    rw [List.foldl_cons, ih, holds_erase, List.mem_cons, Prod.ext_iff]
    tauto

/-- Taking removes the pairs taken and no other. -/
theorem holds_takeDue {limit : Option Nat} :
    (d.takeDue order now limit).2.Holds key t ↔
      d.Holds key t ∧ (t, key) ∉ d.taken order now limit :=
  holds_eraseAll

theorem WellFormed.eraseAll (h : d.WellFormed) (gone : List (Instant × α)) :
    (gone.foldl (fun d pair => d.erase pair.2 pair.1) d).WellFormed := by
  induction gone generalizing d with
  | nil => exact h
  | cons pair gone ih => exact ih (h.erase pair.2 pair.1)

theorem WellFormed.takeDue (h : d.WellFormed) (order : Arrangement α) (now : Instant)
    (limit : Option Nat) : (d.takeDue order now limit).2.WellFormed :=
  h.eraseAll (d.taken order now limit)

omit [Std.LawfulEqOrd α] in
theorem length_takeDue (d : Deadlines α) (order : Arrangement α) (now : Instant) (n : Nat) :
    (d.takeDue order now (some n)).1.length = min n (d.countDue now) := by
  rw [takeDue_fst, List.length_map, taken, Option.elim_some, List.length_take, length_due]

omit [Std.LawfulEqOrd α] in
/-- A limit that is not reached is none. -/
theorem takeDue_of_countDue_le {n : Nat} (h : d.countDue now ≤ n) :
    d.takeDue order now (some n) = d.takeDue order now none := by
  have hall : (d.due order now).take n = d.due order now :=
    List.take_of_length_le (by rwa [length_due])
  simp [takeDue, hall]

/-- The pairs that were taken are no longer due, and all others still are. -/
theorem due_takeDue_perm (d : Deadlines α) (order : Arrangement α) (now : Instant) (n : Nat) :
    ((d.takeDue order now (some n)).2.due order now).Perm ((d.due order now).drop n) := by
  have hsplit : (d.due order now).take n ++ (d.due order now).drop n = d.due order now :=
    List.take_append_drop n _
  have hnodup := d.nodup_due order now
  rw [← hsplit] at hnodup
  refine (List.perm_ext_iff_of_nodup (nodup_due _ _ _) hnodup.of_append_right).mpr ?_
  rintro ⟨t, key⟩
  have hdisjoint : (t, key) ∈ (d.due order now).drop n → (t, key) ∉ (d.due order now).take n :=
    fun hdrop htake => (List.nodup_append.mp hnodup).2.2 _ htake _ hdrop rfl
  have hmem : (t, key) ∈ d.due order now ↔
      (t, key) ∈ (d.due order now).take n ∨ (t, key) ∈ (d.due order now).drop n := by
    rw [← List.mem_append, hsplit]
  have htaken : d.taken order now (some n) = (d.due order now).take n := rfl
  rw [mem_due, holds_takeDue, and_right_comm, ← @mem_due _ _ _ _ d order, htaken]
  tauto

theorem countDue_takeDue (d : Deadlines α) (order : Arrangement α) (now : Instant) (n : Nat) :
    (d.takeDue order now (some n)).2.countDue now = d.countDue now - n := by
  rw [← length_due _ order, (d.due_takeDue_perm order now n).length_eq, List.length_drop,
    length_due]

end Deadlines

end ExpiringCache
