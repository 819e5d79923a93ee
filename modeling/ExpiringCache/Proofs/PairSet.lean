import ExpiringCache.Proofs.DeadlinePairs
import Mathlib.Data.Finset.Card
import Mathlib.Data.Finset.Option
import Mathlib.Data.List.Sort
import Mathlib.Data.Nat.Find

/-!
# The index of deadlines beside a plain set

Whatever is done to an index of deadlines, it holds what a plain set of pairs would hold that the
same was done to. Its buckets decide only how the due pairs are found.

1. **Edits** (`Edit`, `Edits`): what can be done to the index, and what it makes of a set. Which of
   several keys with the same deadline are taken is left open there. An edit of the index is one of
   the set (`edits_edit`), and a run of edits a run of them (`editsAll_editAll`).
2. **Bucket by bucket** (`takeBuckets`): due pairs can be taken from the oldest bucket again and
   again, and the number of pairs kept in step with it, until there are enough or none is left. This
   comes to an end, and to the same (`WellFormed.takeBuckets_eq`).
3. **Batch by batch** (`batch`, `drains`): pairs are taken in full batches, then in one that need
   not be full, then in empty ones.
4. **All of it** (`Represents`): the buckets and the number of any index stand for a set
   (`represents_editAll_empty`).
-/

namespace ExpiringCache.Deadlines

variable {α : Type} [Ord α] [Std.TransOrd α]

/-! ## Edits -/

/-- Something to be done to an index. -/
inductive Edit (α : Type) where
  | insert (key : α) (t : Instant)
  | erase (key : α) (t : Instant)
  | reschedule (key : α) (old new : Option Instant)
  | take (order : Arrangement α) (now : Instant) (limit : Nat)

/-- The keys that an edit answers with, and the index after it. -/
def edit (d : Deadlines α) : Edit α → List α × Deadlines α
  | .insert key t => ([], d.insert key t)
  | .erase key t => ([], d.erase key t)
  | .reschedule key old new => ([], d.reschedule key old new)
  | .take order now limit => d.takeDue order now (some limit)

/-- Edits one after the other. -/
def editAll : List (Edit α) → Deadlines α → List (List α) × Deadlines α
  | [], d => ([], d)
  | e :: edits, d =>
    let one := d.edit e
    let rest := editAll edits one.2
    (one.1 :: rest.1, rest.2)

/-- The pairs as a set. -/
def pairSet (d : Deadlines α) : Finset (Instant × α) := ⟨d.pairs, d.nodup_pairs⟩

section Sets

variable [DecidableEq α]

/-- `taken` may be taken from a set of pairs: it is as much as there is of what is due and allowed,
the oldest first. -/
structure Takes (pairs : Finset (Instant × α)) (now : Instant) (limit : Nat)
    (taken : List (Instant × α)) : Prop where
  nodup : taken.Nodup
  due : ∀ pair ∈ taken, pair ∈ pairs ∧ pair.1 ≤ now
  length_eq : taken.length = min limit (pairs.filter fun pair => pair.1 ≤ now).card
  sorted : taken.Pairwise fun a b => a.1 ≤ b.1
  oldest : ∀ pair ∈ taken, ∀ left ∈ pairs \ taken.toFinset, pair.1 ≤ left.1

/-- What an edit may make of a plain set of pairs, and the keys that it answers with. -/
inductive Edits : Finset (Instant × α) → Edit α → List α → Finset (Instant × α) → Prop
  | insert (pairs : Finset (Instant × α)) (key : α) (t : Instant) :
    Edits pairs (.insert key t) [] ({(t, key)} ∪ pairs)
  | erase (pairs : Finset (Instant × α)) (key : α) (t : Instant) :
    Edits pairs (.erase key t) [] (pairs.erase (t, key))
  | stay (pairs : Finset (Instant × α)) (key : α) (at? : Option Instant) :
    Edits pairs (.reschedule key at? at?) [] pairs
  | move (pairs : Finset (Instant × α)) (key : α) {old new : Option Instant} (h : old ≠ new) :
    Edits pairs (.reschedule key old new) []
      (pairs \ (old.map (·, key)).toFinset ∪ (new.map (·, key)).toFinset)
  | take {pairs : Finset (Instant × α)} {now : Instant} {limit : Nat} {taken : List (Instant × α)}
    (order : Arrangement α) (h : Takes pairs now limit taken) :
    Edits pairs (.take order now limit) (taken.map (·.2)) (pairs \ taken.toFinset)

/-- What edits one after the other may make of a plain set of pairs. -/
inductive EditsAll :
    Finset (Instant × α) → List (Edit α) → List (List α) → Finset (Instant × α) → Prop
  | nil (pairs : Finset (Instant × α)) : EditsAll pairs [] [] pairs
  | cons {pairs next last : Finset (Instant × α)} {e : Edit α} {edits : List (Edit α)}
    {answer : List α} {answers : List (List α)} (h : Edits pairs e answer next)
    (hrest : EditsAll next edits answers last) :
    EditsAll pairs (e :: edits) (answer :: answers) last

end Sets

variable [Std.LawfulEqOrd α] {d : Deadlines α} {order : Arrangement α} {key : α}
  {t now : Instant} {limit n : Nat}

theorem mem_pairSet : (t, key) ∈ d.pairSet ↔ d.Holds key t := mem_pairs

/-- As many pairs of the set are due as the index says. -/
theorem card_filter_pairSet (d : Deadlines α) (now : Instant) :
    (d.pairSet.filter fun pair => pair.1 ≤ now).card = d.countDue now := by
  have hdue : d.pairSet.filter (fun pair => pair.1 ≤ now) =
      ⟨d.due .asListed now, d.nodup_due .asListed now⟩ := by
    ext ⟨t, key⟩
    rw [Finset.mem_filter, mem_pairSet, ← @mem_due _ _ _ _ d .asListed]
    rfl
  rw [hdue, ← length_due d .asListed]
  rfl

/-! ### Taking the oldest -/

omit [Std.TransOrd α] [Std.LawfulEqOrd α] in
theorem mem_dueBuckets {bucket : Std.ExtTreeSet α compare} :
    (t, bucket) ∈ d.dueBuckets now ↔ d.buckets[t]? = some bucket ∧ t ≤ now := by
  rw [dueBuckets_eq_filter, List.mem_filter, Std.ExtTreeMap.mem_toList_iff_getElem?_eq_some,
    decide_eq_true_eq]

omit [Std.TransOrd α] [Std.LawfulEqOrd α] in
theorem pairwise_dueBuckets (d : Deadlines α) (now : Instant) :
    (d.dueBuckets now).Pairwise fun a b => a.1 < b.1 := by
  rw [dueBuckets_eq_filter]
  refine (d.buckets.ordered_keys_toList.filter _).imp fun {a b} hab => ?_
  rwa [Instant.compare_def, Int.compare_eq_lt] at hab

omit [Std.LawfulEqOrd α] in
/-- Due pairs are listed the oldest first. -/
theorem pairwise_due (d : Deadlines α) (order : Arrangement α) (now : Instant) :
    (d.due order now).Pairwise fun a b => a.1 ≤ b.1 := by
  rw [due, List.pairwise_flatMap]
  constructor
  · rintro ⟨u, bucket⟩ -
    rw [List.pairwise_map]
    exact List.pairwise_of_forall fun _ _ => Instant.le_refl u
  · refine (d.pairwise_dueBuckets now).imp fun {a b} hab => ?_
    simp only [List.mem_map]
    rintro _ ⟨_, -, rfl⟩ _ ⟨_, -, rfl⟩
    exact Int.le_of_lt hab

theorem takes_taken [DecidableEq α] (d : Deadlines α) (order : Arrangement α) (now : Instant)
    (limit : Nat) : Takes d.pairSet now limit (d.taken order now (some limit)) := by
  have hsplit : d.taken order now (some limit) ++ (d.due order now).drop limit =
      d.due order now := List.take_append_drop limit _
  have hsorted := d.pairwise_due order now
  rw [← hsplit, List.pairwise_append] at hsorted
  obtain ⟨htaken, -, hacross⟩ := hsorted
  constructor
  · exact d.nodup_taken order now (some limit)
  · rintro ⟨t, key⟩ hmem
    rw [mem_pairSet]
    exact holds_of_mem_taken hmem
  · rw [card_filter_pairSet, taken, Option.elim_some, List.length_take, length_due]
  · exact htaken
  · rintro ⟨t, key⟩ hmem ⟨u, k⟩ hleft
    rw [Finset.mem_sdiff, List.mem_toFinset, mem_pairSet] at hleft
    by_cases hu : u ≤ now
    · have hdue : (u, k) ∈ d.due order now := mem_due.mpr ⟨hleft.1, hu⟩
      rw [← hsplit, List.mem_append] at hdue
      exact hacross _ hmem _ (hdue.resolve_left hleft.2)
    · have ht := (holds_of_mem_taken hmem).2
      rw [Instant.le_def] at hu ht ⊢
      show t.ms ≤ u.ms
      omega

/-! ### Runs -/

section Runs

variable [DecidableEq α]

/-- The index holds afterwards what the set holds. -/
theorem edits_edit (d : Deadlines α) (e : Edit α) :
    Edits d.pairSet e (d.edit e).1 (d.edit e).2.pairSet := by
  cases e with
  | insert key t =>
    have hset : (d.insert key t).pairSet = {(t, key)} ∪ d.pairSet := by
      ext ⟨u, k⟩
      rw [mem_pairSet, holds_insert, Finset.mem_union, Finset.mem_singleton, mem_pairSet,
        Prod.mk.injEq]
      tauto
    rw [edit, hset]
    exact .insert d.pairSet key t
  | erase key t =>
    have hset : (d.erase key t).pairSet = d.pairSet.erase (t, key) := by
      ext ⟨u, k⟩
      rw [mem_pairSet, holds_erase, Finset.mem_erase, mem_pairSet, ne_eq, Prod.mk.injEq]
      tauto
    rw [edit, hset]
    exact .erase d.pairSet key t
  | reschedule key old new =>
    rw [edit]
    by_cases h : old = new
    · subst h
      rw [reschedule, if_pos rfl]
      exact .stay d.pairSet key old
    · have hset : (d.reschedule key old new).pairSet =
          d.pairSet \ (old.map (·, key)).toFinset ∪ (new.map (·, key)).toFinset := by
        ext ⟨u, k⟩
        rw [mem_pairSet, reschedule, if_neg h]
        cases old <;> cases new <;>
          simp [holds_insert, holds_erase, mem_pairSet] <;> tauto
      rw [hset]
      exact .move d.pairSet key h
  | take order now limit =>
    have hset : (d.takeDue order now (some limit)).2.pairSet =
        d.pairSet \ (d.taken order now (some limit)).toFinset := by
      ext ⟨u, k⟩
      rw [mem_pairSet, holds_takeDue, Finset.mem_sdiff, mem_pairSet, List.mem_toFinset]
    rw [edit, hset, takeDue_fst]
    exact .take order (d.takes_taken order now limit)

theorem editsAll_editAll (edits : List (Edit α)) (d : Deadlines α) :
    EditsAll d.pairSet edits (editAll edits d).1 (editAll edits d).2.pairSet := by
  induction edits generalizing d with
  | nil => exact .nil _
  | cons e edits ih => exact .cons (d.edits_edit e) (ih (d.edit e).2)

end Runs

theorem WellFormed.edit (h : d.WellFormed) (e : Edit α) : (d.edit e).2.WellFormed := by
  cases e with
  | insert key t => exact h.insert key t
  | erase key t => exact h.erase key t
  | reschedule key old new => exact h.reschedule key old new
  | take order now limit => exact h.takeDue order now (some limit)

theorem WellFormed.editAll (h : d.WellFormed) (edits : List (Edit α)) :
    (Deadlines.editAll edits d).2.WellFormed := by
  induction edits generalizing d with
  | nil => exact h
  | cons e edits ih => exact ih (h.edit e)

/-! ## Bucket by bucket -/

section Buckets

/-- Takes keys out of the bucket of a moment, and the bucket away with the last of them; nothing, if
more keys would be counted than there are. -/
def takeFrom? (d : Deadlines α) (t : Instant) (bucket : Std.ExtTreeSet α) (keys : List α) :
    Option (Deadlines α) :=
  let rest := keys.foldl (·.erase ·) bucket
  if keys.length ≤ d.count then
    some ⟨if rest.isEmpty then d.buckets.erase t else d.buckets.insert t rest,
      d.count - keys.length⟩
  else none

/-- Takes up to `limit` due keys, from the oldest bucket for as long as there is one, in at most
`fuel` rounds. Nothing, if that is not the end of it. -/
def takeBuckets (order : Arrangement α) (now : Instant) :
    Nat → Nat → Deadlines α → Option (List α × Deadlines α)
  | 0, _, _ => none
  | fuel + 1, limit, d =>
    if limit = 0 then some ([], d)
    else
      match d.dueBuckets now with
      | [] => some ([], d)
      | (t, bucket) :: _ =>
        let keys := (order.arrange t bucket.toList).take limit
        (d.takeFrom? t bucket keys).bind fun rest =>
          (takeBuckets order now fuel (limit - keys.length) rest).map fun taken =>
            (keys ++ taken.1, taken.2)

variable {bucket : Std.ExtTreeSet α} {keys : List α} {fuel : Nat}

theorem mem_eraseAll : key ∈ keys.foldl (·.erase ·) bucket ↔ key ∈ bucket ∧ key ∉ keys := by
  induction keys generalizing bucket with
  | nil => simp
  | cons k keys ih =>
    rw [List.foldl_cons, ih, Std.ExtTreeSet.mem_erase, List.mem_cons]
    simp only [Std.LawfulEqCmp.compare_eq_iff_eq, ne_eq]
    tauto

omit [Std.LawfulEqOrd α] in
/-- A bucket is replaced by what is left of it, or dropped if nothing is. -/
theorem holds_replaceBucket {rest : Std.ExtTreeSet α} {count : Nat}
    (hbucket : d.buckets[t]? = some bucket)
    (hrest : ∀ k, k ∈ rest ↔ k ∈ bucket ∧ k ∉ keys) {k : α} {u : Instant} :
    Holds ⟨if rest.isEmpty then d.buckets.erase t else d.buckets.insert t rest, count⟩ k u ↔
      d.Holds k u ∧ (u, k) ∉ keys.map (t, ·) := by
  by_cases hu : u = t
  · subst hu
    have hmem : (u, k) ∈ keys.map (u, ·) ↔ k ∈ keys := by simp
    simp only [hmem, Holds, hbucket, Option.some.injEq, exists_eq_left', ← hrest]
    by_cases hempty : rest.isEmpty = true
    · have hnone : k ∉ rest := by
        rw [Std.ExtTreeSet.isEmpty_iff] at hempty
        simp [hempty]
      simp [hempty, hnone]
    · simp [hempty]
  · have hmem : (u, k) ∉ keys.map (t, ·) := by simp [Ne.symm hu]
    simp only [Holds, hmem, not_false_eq_true, and_true]
    split <;> simp [Std.ExtTreeMap.getElem?_insert, Std.ExtTreeMap.getElem?_erase, Ne.symm hu]

/-- The pairs that were there are those taken and those left. -/
theorem pairs_perm_of_holds {left : Deadlines α} {taken : List (Instant × α)}
    (hnodup : taken.Nodup) (htaken : ∀ pair ∈ taken, d.Holds pair.2 pair.1)
    (hholds : ∀ k u, left.Holds k u ↔ d.Holds k u ∧ (u, k) ∉ taken) :
    d.pairs.Perm (taken ++ left.pairs) := by
  have hdisjoint : taken.Disjoint left.pairs := by
    rintro ⟨u, k⟩ hin hheld
    exact ((hholds k u).mp (mem_pairs.mp hheld)).2 hin
  refine (List.perm_ext_iff_of_nodup (nodup_pairs d)
    (hnodup.append (nodup_pairs left) hdisjoint)).mpr ?_
  rintro ⟨u, k⟩
  have hin := htaken (u, k)
  rw [List.mem_append, mem_pairs, mem_pairs, hholds]
  tauto

omit [Std.LawfulEqOrd α] in
/-- No bucket is left empty. -/
theorem WellFormed.replaceBucket_ne_empty (h : d.WellFormed) {rest : Std.ExtTreeSet α} {u : Instant}
    (hu : (if rest.isEmpty then d.buckets.erase t else d.buckets.insert t rest)[u]? = some bucket) :
    bucket ≠ ∅ := by
  by_cases hempty : rest.isEmpty = true
  · rw [if_pos hempty, Std.ExtTreeMap.getElem?_erase] at hu
    split at hu
    · cases hu
    · exact h.bucket_ne_empty u bucket hu
  · rw [if_neg hempty, Std.ExtTreeMap.getElem?_insert] at hu
    split at hu
    · cases hu
      simpa using hempty
    · exact h.bucket_ne_empty u bucket hu

/-- To take different keys out of a bucket is to erase their pairs. -/
theorem WellFormed.takeFrom?_eq (h : d.WellFormed) (hbucket : d.buckets[t]? = some bucket)
    (hkeys : ∀ key ∈ keys, key ∈ bucket) (hnodup : keys.Nodup) :
    d.takeFrom? t bucket keys =
      some ((keys.map (t, ·)).foldl (fun d pair => d.erase pair.2 pair.1) d) := by
  simp only [takeFrom?]
  generalize hrest : keys.foldl (·.erase ·) bucket = rest
  generalize hleft : (⟨if rest.isEmpty then d.buckets.erase t else d.buckets.insert t rest,
    d.count - keys.length⟩ : Deadlines α) = left
  have hmem : ∀ k, k ∈ rest ↔ k ∈ bucket ∧ k ∉ keys := by
    intro k
    rw [← hrest]
    exact mem_eraseAll
  have hholds : ∀ k u, left.Holds k u ↔ d.Holds k u ∧ (u, k) ∉ keys.map (t, ·) := by
    intro k u
    rw [← hleft]
    exact holds_replaceBucket hbucket hmem
  have htaken : ∀ pair ∈ keys.map (t, ·), d.Holds pair.2 pair.1 := by
    intro pair hpair
    obtain ⟨key, hkey, rfl⟩ := List.mem_map.mp hpair
    exact ⟨bucket, hbucket, hkeys key hkey⟩
  have hpairs := pairs_perm_of_holds (hnodup.map fun a b hab => (Prod.mk.inj hab).2) htaken hholds
  have hlength := hpairs.length_eq
  rw [List.length_append, List.length_map, ← h.count_eq] at hlength
  have hcount : left.count = d.count - keys.length := by rw [← hleft]
  have hwell : left.WellFormed := by
    refine ⟨fun u b hb => ?_, by omega⟩
    rw [← hleft] at hb
    exact h.replaceBucket_ne_empty hb
  rw [if_pos (by omega), Option.some.injEq]
  refine hwell.ext (h.eraseAll _) fun k u => ?_
  rw [hholds, holds_eraseAll]

/-- If all keys are taken, the bucket goes. -/
theorem buckets_of_takeFrom? {rest : Deadlines α} (h : d.takeFrom? t bucket keys = some rest)
    (hall : ∀ k ∈ bucket, k ∈ keys) : rest.buckets = d.buckets.erase t := by
  have hempty : (keys.foldl (·.erase ·) bucket).isEmpty = true := by
    rw [Std.ExtTreeSet.isEmpty_iff, Std.ExtTreeSet.eq_empty_iff_forall_not_mem]
    intro k hk
    obtain ⟨hbucket, hnot⟩ := mem_eraseAll.mp hk
    exact hnot (hall k hbucket)
  simp only [takeFrom?, hempty, if_true] at h
  split at h
  · cases h
    rfl
  · cases h

omit [Std.TransOrd α] [Std.LawfulEqOrd α] in
/-- Once the oldest bucket is gone the others are as they were. -/
theorem dueBuckets_of_cons {rest : Deadlines α} {others : List (Instant × Std.ExtTreeSet α)}
    (hcons : d.dueBuckets now = (t, bucket) :: others)
    (hgone : rest.buckets = d.buckets.erase t) : rest.dueBuckets now = others := by
  have hsorted := d.pairwise_dueBuckets now
  rw [hcons, List.pairwise_cons] at hsorted
  have hlater : ∀ pair ∈ others, pair.1 ≠ t := by
    rintro pair hpair rfl
    exact Int.lt_irrefl _ (hsorted.1 pair hpair)
  have hmem : ∀ pair, pair ∈ rest.dueBuckets now ↔ pair ∈ others := by
    rintro ⟨u, b⟩
    have hdue : (u, b) ∈ d.dueBuckets now ↔ d.buckets[u]? = some b ∧ u ≤ now := mem_dueBuckets
    rw [hcons, List.mem_cons, Prod.mk.injEq] at hdue
    rw [mem_dueBuckets, hgone, Std.ExtTreeMap.getElem?_erase]
    by_cases hu : u = t
    · subst hu
      simp only [Std.ReflCmp.compare_self, if_true]
      exact iff_of_false (fun h => nomatch h.1) fun h => hlater _ h rfl
    · have hcompare : ¬ compare t u = .eq := by simpa using Ne.symm hu
      rw [if_neg hcompare, ← hdue]
      simp [hu]
  have hrest := rest.pairwise_dueBuckets now
  have hasymm : Std.Asymm fun a b : Instant × Std.ExtTreeSet α => a.1 < b.1 :=
    ⟨fun a b hab hba => Int.lt_asymm hab hba⟩
  exact hrest.eq_of_mem_iff hsorted.2 hmem

omit [Std.LawfulEqOrd α] in
theorem takeDue_some (d : Deadlines α) (order : Arrangement α) (now : Instant) (limit : Nat) :
    d.takeDue order now (some limit) =
      (((d.due order now).take limit).map (·.2),
        ((d.due order now).take limit).foldl (fun d pair => d.erase pair.2 pair.1) d) := rfl

/-- To go from bucket to bucket comes to an end, takes the due pairs in their order, and never
counts below zero. -/
theorem WellFormed.takeBuckets_eq (h : d.WellFormed) (order : Arrangement α)
    (hfuel : (d.dueBuckets now).length < fuel) :
    takeBuckets order now fuel limit d = some (d.takeDue order now (some limit)) := by
  induction fuel generalizing d limit with
  | zero => exact absurd hfuel (Nat.not_lt_zero _)
  | succ fuel ih =>
    by_cases hzero : limit = 0
    · simp [takeBuckets, takeDue_some, hzero]
    · cases hdue : d.dueBuckets now with
      | nil => simp [takeBuckets, takeDue_some, due, hdue, hzero]
      | cons first others =>
        obtain ⟨t, bucket⟩ := first
        have hbucket : d.buckets[t]? = some bucket :=
          (mem_dueBuckets.mp (hdue ▸ List.mem_cons_self)).1
        generalize hlisted : order.arrange t bucket.toList = listed
        generalize hfirst : listed.take limit = first
        have hperm : listed.Perm bucket.toList := hlisted ▸ order.perm t bucket.toList
        have hsub : first.Sublist listed := hfirst ▸ List.take_sublist limit listed
        have hkeys : ∀ key ∈ first, key ∈ bucket := by
          intro key hkey
          simpa using hperm.mem_iff.mp (hsub.subset hkey)
        have hnodup : first.Nodup := by
          refine hsub.nodup (hperm.nodup_iff.mpr ?_)
          exact bucket.distinct_toList.imp Std.ReflCmp.ne_of_cmp_ne_eq
        have hfrom := h.takeFrom?_eq hbucket hkeys hnodup
        generalize hleft : (first.map (t, ·)).foldl (fun d pair => d.erase pair.2 pair.1) d =
          left at hfrom
        have hwell : left.WellFormed := hleft ▸ h.eraseAll _
        -- the keys of the oldest bucket come first, and the rest of the room is for the others
        have hall : d.due order now = listed.map (t, ·) ++ pairsOf order others := by
          rw [due, hdue, List.flatMap_cons, hlisted]
          rfl
        have hsplit : d.takeDue order now (some limit) =
            (first ++ ((pairsOf order others).take (limit - listed.length)).map (·.2),
              ((pairsOf order others).take (limit - listed.length)).foldl
                (fun d pair => d.erase pair.2 pair.1) left) := by
          rw [takeDue_some, hall, List.take_append, List.length_map, ← List.map_take, hfirst,
            List.map_append, List.map_map, List.foldl_append, hleft]
          simp [Function.comp_def]
        have hroom : limit - first.length = limit - listed.length := by
          rw [← hfirst, List.length_take]
          omega
        simp only [takeBuckets, hzero, if_false, hdue, hlisted, hfirst, hfrom, Option.bind_some,
          hroom, hsplit]
        by_cases hfull : listed.length < limit
        · have hgone : left.dueBuckets now = others := by
            refine dueBuckets_of_cons hdue (buckets_of_takeFrom? hfrom fun k hk => ?_)
            rw [← hfirst, List.take_of_length_le (Nat.le_of_lt hfull)]
            exact hperm.mem_iff.mpr (by simpa using hk)
          have hmore : left.due order now = pairsOf order others := by
            rw [due, hgone]
            rfl
          have hless : (left.dueBuckets now).length < fuel := by
            rw [hgone]
            simpa [hdue] using hfuel
          rw [ih hwell hless, Option.map_some, takeDue_some, hmore]
        · -- there is no room for a key of another bucket
          have hnone : limit - listed.length = 0 := by omega
          cases fuel with
          | zero => simp [hdue] at hfuel
          | succ fuel => simp [takeBuckets, hnone]

end Buckets

/-! ## Batch by batch -/

section Batches

/-- The index after a number of batches, the keys arranged anew for each. -/
def afterBatches (orders : Nat → Arrangement α) (now : Instant) (limit : Nat) (d : Deadlines α) :
    Nat → Deadlines α
  | 0 => d
  | n + 1 => ((afterBatches orders now limit d n).takeDue (orders n) now (some limit)).2

/-- The batch taken after `n` others. -/
def batch (orders : Nat → Arrangement α) (now : Instant) (limit : Nat) (d : Deadlines α) (n : Nat) :
    List α :=
  ((afterBatches orders now limit d n).takeDue (orders n) now (some limit)).1

variable {orders : Nat → Arrangement α}

theorem countDue_afterBatches (orders : Nat → Arrangement α) (now : Instant) (limit : Nat)
    (d : Deadlines α) (n : Nat) :
    (afterBatches orders now limit d n).countDue now = d.countDue now - n * limit := by
  induction n with
  | zero => simp [afterBatches]
  | succ n ih =>
    rw [afterBatches, countDue_takeDue, ih, Nat.succ_mul]
    omega

theorem length_batch (orders : Nat → Arrangement α) (now : Instant) (limit : Nat)
    (d : Deadlines α) (n : Nat) :
    (batch orders now limit d n).length = min limit (d.countDue now - n * limit) := by
  rw [batch, length_takeDue, countDue_afterBatches]

theorem batch_eq_nil_iff (hlimit : 0 < limit) :
    batch orders now limit d n = [] ↔ d.countDue now ≤ n * limit := by
  rw [← List.length_eq_zero_iff, length_batch]
  omega

/-- Only the last batch before the empty ones need not be full. -/
theorem length_batch_of_lt (hlimit : 0 < limit) {m : Nat} (hm : m < n)
    (hn : batch orders now limit d n ≠ []) : (batch orders now limit d m).length = limit := by
  rw [ne_eq, batch_eq_nil_iff hlimit] at hn
  have hle : (m + 1) * limit ≤ n * limit := Nat.mul_le_mul_right limit hm
  rw [Nat.succ_mul] at hle
  rw [length_batch]
  omega

theorem holds_afterBatches (ht : ¬ t ≤ now) :
    (afterBatches orders now limit d n).Holds key t ↔ d.Holds key t := by
  induction n with
  | zero => rfl
  | succ n ih =>
    rw [afterBatches, holds_takeDue, ih]
    exact and_iff_left fun htaken => ht (holds_of_mem_taken htaken).2

/-- All due pairs are gone with an empty batch, and no other pair is. -/
theorem pairSet_afterBatches (hlimit : 0 < limit) (hn : batch orders now limit d n = []) :
    (afterBatches orders now limit d n).pairSet = d.pairSet.filter fun pair => ¬ pair.1 ≤ now := by
  have hnone : (afterBatches orders now limit d n).countDue now = 0 := by
    rw [batch_eq_nil_iff hlimit] at hn
    rw [countDue_afterBatches]
    omega
  rw [← length_due _ .asListed, List.length_eq_zero_iff] at hnone
  ext ⟨t, key⟩
  rw [mem_pairSet, Finset.mem_filter, mem_pairSet]
  by_cases ht : t ≤ now
  · refine iff_of_false (fun hheld => ?_) fun h => h.2 ht
    have hdue : (t, key) ∈ (afterBatches orders now limit d n).due .asListed now :=
      mem_due.mpr ⟨hheld, ht⟩
    rw [hnone] at hdue
    cases hdue
  · rw [holds_afterBatches ht]
    exact (and_iff_left ht).symm

theorem due_perm (d : Deadlines α) (order order' : Arrangement α) (now : Instant) :
    (d.due order now).Perm (d.due order' now) := by
  refine (List.perm_ext_iff_of_nodup (d.nodup_due order now) (d.nodup_due order' now)).mpr ?_
  rintro ⟨t, key⟩
  rw [mem_due, mem_due]

/-- The due keys are those of the batches and those still due after them. -/
theorem due_perm_batches (orders : Nat → Arrangement α) (order : Arrangement α) (now : Instant)
    (limit : Nat) (d : Deadlines α) (n : Nat) :
    ((d.due order now).map (·.2)).Perm
      ((List.range n).flatMap (batch orders now limit d) ++
        ((afterBatches orders now limit d n).due order now).map (·.2)) := by
  induction n with
  | zero => exact .rfl
  | succ n ih =>
    generalize hindex : afterBatches orders now limit d n = before at ih
    have hbatch : batch orders now limit d n =
        ((before.due (orders n) now).take limit).map (·.2) := by
      rw [batch, hindex]
      rfl
    have hafter : afterBatches orders now limit d (n + 1) =
        (before.takeDue (orders n) now (some limit)).2 := by rw [afterBatches, hindex]
    have hsplit : ((before.due order now).map (·.2)).Perm
        (batch orders now limit d n ++
          ((afterBatches orders now limit d (n + 1)).due order now).map (·.2)) := by
      rw [hbatch, hafter, ← List.map_append]
      refine ((before.due_perm order (orders n) now).trans ?_).map _
      refine (List.Perm.of_eq (List.take_append_drop limit _).symm).trans (.append_left _ ?_)
      exact (before.due_takeDue_perm (orders n) now limit).symm.trans (due_perm _ _ _ now)
    rw [List.range_succ, List.flatMap_append, List.flatMap_singleton, List.append_assoc]
    exact ih.trans (.append_left _ hsplit)

omit [Std.LawfulEqOrd α] in
theorem afterBatches_succ (order : Arrangement α) (now : Instant) (limit : Nat) (d : Deadlines α)
    (n : Nat) :
    afterBatches (fun _ => order) now limit d (n + 1) =
      afterBatches (fun _ => order) now limit (d.takeDue order now (some limit)).2 n := by
  induction n with
  | zero => rfl
  | succ n ih =>
    rw [afterBatches, ih]
    rfl

omit [Std.LawfulEqOrd α] in
theorem batch_succ (order : Arrangement α) (now : Instant) (limit : Nat) (d : Deadlines α)
    (n : Nat) :
    batch (fun _ => order) now limit d (n + 1) =
      batch (fun _ => order) now limit (d.takeDue order now (some limit)).2 n := by
  rw [batch, afterBatches_succ]
  rfl

omit [Std.LawfulEqOrd α] in
/-- With one arrangement for all batches, they are taken up to the first empty one. -/
theorem takeBatchesFor_eq {fuel : Nat} (hempty : batch (fun _ => order) now limit d n = [])
    (hfirst : ∀ m < n, batch (fun _ => order) now limit d m ≠ []) (hfuel : n < fuel) :
    takeBatchesFor order now (some limit) fuel d =
      ((List.range (n + 1)).map (batch (fun _ => order) now limit d),
        afterBatches (fun _ => order) now limit d (n + 1)) := by
  induction n generalizing d fuel with
  | zero =>
    obtain ⟨fuel, rfl⟩ := Nat.exists_eq_succ_of_ne_zero (Nat.ne_of_gt hfuel)
    have hnil : (d.takeDue order now (some limit)).1 = [] := hempty
    rw [takeBatchesFor, hnil, List.range_one, List.map_singleton, hempty]
    rfl
  | succ n ih =>
    obtain ⟨fuel, rfl⟩ := Nat.exists_eq_succ_of_ne_zero (Nat.ne_of_gt (Nat.zero_lt_of_lt hfuel))
    have hne : (d.takeDue order now (some limit)).1 ≠ [] := hfirst 0 (Nat.succ_pos n)
    have hempty' :
        batch (fun _ => order) now limit (d.takeDue order now (some limit)).2 n = [] := by
      rwa [← batch_succ]
    have hfirst' : ∀ m < n,
        batch (fun _ => order) now limit (d.takeDue order now (some limit)).2 m ≠ [] := by
      intro m hm
      rw [← batch_succ]
      exact hfirst (m + 1) (Nat.succ_lt_succ hm)
    have hrest := ih hempty' hfirst' (Nat.lt_of_succ_lt_succ hfuel)
    rw [takeBatchesFor, if_neg (by simpa using hne), hrest, afterBatches_succ order _ _ d,
      List.range_succ_eq_map (n := n + 1), List.map_cons, List.map_map]
    refine congrArg₂ Prod.mk (congrArg (_ :: ·) (List.map_congr_left fun m _ => ?_)) rfl
    exact (batch_succ order now limit d m).symm

/-- What comes of taking batches of up to `limit` due pairs, the keys arranged anew for each. -/
structure Drains (d : Deadlines α) (orders : Nat → Arrangement α) (now : Instant) (limit : Nat) :
    Prop where
  full : ∀ m n, m < n → batch orders now limit d n ≠ [] →
    (batch orders now limit d m).length = limit
  exists_empty : ∃ n, batch orders now limit d n = []
  left : ∀ n, batch orders now limit d n = [] →
    (afterBatches orders now limit d n).pairSet = d.pairSet.filter fun pair => ¬ pair.1 ≤ now
  keys : ∀ n, batch orders now limit d n = [] →
    ((List.range n).flatMap (batch orders now limit d)).Perm ((d.due .asListed now).map (·.2))

theorem drains (d : Deadlines α) (orders : Nat → Arrangement α) (now : Instant)
    (hlimit : 0 < limit) : d.Drains orders now limit := by
  refine ⟨fun m n hm hn => length_batch_of_lt hlimit hm hn, ⟨d.countDue now, ?_⟩,
    fun n hn => pairSet_afterBatches hlimit hn, fun n hn => ?_⟩
  · rw [batch_eq_nil_iff hlimit]
    exact Nat.le_mul_of_pos_right _ hlimit
  · have hnone : (afterBatches orders now limit d n).due .asListed now = [] := by
      rw [← List.length_eq_zero_iff, length_due, countDue_afterBatches]
      rw [batch_eq_nil_iff hlimit] at hn
      omega
    have hperm := due_perm_batches orders .asListed now limit d n
    rw [hnone, List.map_nil, List.append_nil] at hperm
    exact hperm.symm

theorem exists_takeBatches_eq (d : Deadlines α) (order : Arrangement α) (now : Instant)
    (hlimit : 0 < limit) :
    ∃ n, batch (fun _ => order) now limit d n = [] ∧
      (∀ m < n, batch (fun _ => order) now limit d m ≠ []) ∧
      d.takeBatches order now (some limit) =
        ((List.range (n + 1)).map (batch (fun _ => order) now limit d),
          afterBatches (fun _ => order) now limit d (n + 1)) := by
  have hall : d.countDue now ≤ d.countDue now * limit := Nat.le_mul_of_pos_right _ hlimit
  have hends : ∃ n, d.countDue now ≤ n * limit := ⟨_, hall⟩
  have hempty : batch (fun _ => order) now limit d (Nat.find hends) = [] :=
    (batch_eq_nil_iff hlimit).mpr (Nat.find_spec hends)
  have hfirst : ∀ m < Nat.find hends, batch (fun _ => order) now limit d m ≠ [] := fun m hm h =>
    Nat.find_min hends hm ((batch_eq_nil_iff hlimit).mp h)
  exact ⟨Nat.find hends, hempty, hfirst, takeBatchesFor_eq hempty hfirst
    (Nat.lt_succ_of_le (Nat.find_min' hends hall))⟩

end Batches

/-! ## All of it -/

/-- The buckets and the number beside them stand for the set of pairs. -/
structure Represents (d : Deadlines α) : Prop where
  mem_iff : ∀ key t, (t, key) ∈ d.pairSet ↔ d.Holds key t
  count_eq : d.count = d.pairSet.card
  bucket_ne_empty : ∀ (t : Instant) (bucket : Std.ExtTreeSet α),
    d.buckets[t]? = some bucket → bucket ≠ ∅
  /-- The number never goes below zero. -/
  count_erase : ∀ key t, d.Holds key t → (d.erase key t).count + 1 = d.count
  countDue_eq : ∀ now, d.countDue now = (d.pairSet.filter fun pair => pair.1 ≤ now).card
  /-- Going from bucket to bucket is over after as many rounds as there are buckets. -/
  takeBuckets_eq : ∀ (order : Arrangement α) (now : Instant) (limit fuel : Nat),
    d.buckets.size < fuel →
      takeBuckets order now fuel limit d = some (d.takeDue order now (some limit))
  drains : ∀ (orders : Nat → Arrangement α) (now : Instant) (limit : Nat), 0 < limit →
    d.Drains orders now limit
  /-- To go on until a batch is empty comes to an end with the first that is. -/
  takeBatches_eq : ∀ (order : Arrangement α) (now : Instant) (limit : Nat), 0 < limit →
    ∃ n, batch (fun _ => order) now limit d n = [] ∧
      (∀ m < n, batch (fun _ => order) now limit d m ≠ []) ∧
      d.takeBatches order now (some limit) =
        ((List.range (n + 1)).map (batch (fun _ => order) now limit d),
          afterBatches (fun _ => order) now limit d (n + 1))

theorem WellFormed.represents (h : d.WellFormed) : d.Represents where
  mem_iff key t := mem_pairSet
  count_eq := h.count_eq
  bucket_ne_empty := h.bucket_ne_empty
  count_erase key t hheld := by
    rw [h.count_eq, (h.erase key t).count_eq, (pairs_erase_perm hheld).length_eq,
      List.length_cons]
  countDue_eq now := (d.card_filter_pairSet now).symm
  takeBuckets_eq order now limit fuel hfuel := by
    refine h.takeBuckets_eq order (Nat.lt_of_le_of_lt ?_ hfuel)
    rw [dueBuckets_eq_filter, ← Std.ExtTreeMap.length_toList]
    exact List.length_filter_le _ _
  drains orders now limit hlimit := d.drains orders now hlimit
  takeBatches_eq order now limit hlimit := d.exists_takeBatches_eq order now hlimit

theorem pairSet_empty : (empty : Deadlines α).pairSet = ∅ := by
  ext ⟨t, key⟩
  rw [mem_pairSet]
  exact iff_of_false (not_holds_empty key t) (Finset.notMem_empty _)

/-- Whatever is done to an index from the beginning, it holds what a plain set would that the same
was done to, and its buckets stand for that set. -/
theorem represents_editAll_empty [DecidableEq α] (edits : List (Edit α)) :
    EditsAll ∅ edits (editAll edits empty).1 (editAll edits empty).2.pairSet ∧
      (editAll edits (empty : Deadlines α)).2.Represents := by
  refine ⟨?_, (wellFormed_empty.editAll edits).represents⟩
  rw [← pairSet_empty]
  exact editsAll_editAll edits empty

/-- Of three due pairs two are taken. One of the three was inserted twice, and one that was never
there was removed and moved. -/
theorem represents_two_of_three_due :
    let edits : List (Edit Nat) := [.insert 1 (.clamp 100), .insert 2 (.clamp 150),
      .insert 3 (.clamp 150), .insert 3 (.clamp 150), .erase 4 (.clamp 150),
      .reschedule 4 (some (.clamp 150)) (some (.clamp 400)), .take .asListed (.clamp 200) 2]
    let last := editAll edits empty
    last.1 = [[], [], [], [], [], [], [1, 2]] ∧ last.2.pairs = [(.clamp 150, 3), (.clamp 400, 4)] ∧
      EditsAll ∅ edits last.1 last.2.pairSet ∧ last.2.Represents :=
  ⟨by decide +kernel, by decide +kernel, represents_editAll_empty _⟩

end ExpiringCache.Deadlines
