import ExpiringCache.Proofs.Alike

/-!
# The order of use as a list

Positions put the stored keys in a row, the longest unused first. The row is all that the order of
use says: of two keys one comes before the other in it, and positions play no other part.

1. **Listing** (`Store.Indexed.mem_toList`, `Store.Indexed.pairwise_toList`): the list has every
   stored key, in the order of use, and there is no other such list (`Store.Indexed.toList_eq`).
2. **After a deed** (`Store.Follows.toList_eq`): the keys that stay are listed as before, and the
   key that the deed uses comes last.
-/

namespace ExpiringCache

variable {α β : Type} [Ord α] [Std.TransOrd α]

omit [Ord α] [Std.TransOrd α] in
theorem Recency.mem_toList {r : Recency α} {key : α} :
    key ∈ r.toList ↔ ∃ p : Nat, r.order[p]? = some key := by
  simp [Recency.toList, Std.ExtTreeMap.mem_toList_iff_getElem?_eq_some]

namespace Store

variable {s t : Store α β} {key : α} {keys : List α} {use : Option α}

theorem nodup_of_before (h : keys.Pairwise s.Before) : keys.Nodup :=
  h.imp fun {a b} hab heq => by
    subst heq
    exact not_before_both hab hab

theorem Indexed.mem_toList (h : s.Indexed) (bounded : 0 < s.recency.capacity) :
    key ∈ s.recency.toList ↔ ∃ e, s.entries[key]? = some e := by
  rw [Recency.mem_toList]
  constructor
  · rintro ⟨p, hp⟩
    obtain ⟨e, he, -⟩ := h.ranked.entry hp
    exact ⟨e, he⟩
  · rintro ⟨e, he⟩
    obtain ⟨p, -, hp⟩ := h.ranked.position bounded he
    exact ⟨p, hp⟩

theorem Indexed.pairwise_toList (h : s.Indexed) : s.recency.toList.Pairwise s.Before := by
  rw [Recency.toList, List.pairwise_map]
  refine Std.ExtTreeMap.ordered_keys_toList.imp_of_mem ?_
  rintro ⟨p, a⟩ ⟨q, b⟩ ha hb hlt
  rw [Std.ExtTreeMap.mem_toList_iff_getElem?_eq_some] at ha hb
  exact ⟨p, q, (h.ranked.order_iff p a).mp ha, (h.ranked.order_iff q b).mp hb,
    Nat.compare_eq_lt.mp hlt⟩

/-- The stored keys in the order of use are the list, however they were found. -/
theorem Indexed.toList_eq (h : s.Indexed) (bounded : 0 < s.recency.capacity)
    (hsorted : keys.Pairwise s.Before)
    (hmem : ∀ k, k ∈ keys ↔ ∃ e, s.entries[k]? = some e) : s.recency.toList = keys := by
  have hlisted := h.pairwise_toList
  have hperm : s.recency.toList.Perm keys :=
    (List.perm_ext_iff_of_nodup (nodup_of_before hlisted) (nodup_of_before hsorted)).mpr
      fun k => (h.mem_toList bounded).trans (hmem k).symm
  exact hperm.eq_of_pairwise (fun a b _ _ hab hba => (not_before_both hab hba).elim) hlisted hsorted

/-- The keys that stay, and after them the one that was used. -/
theorem Follows.toList_eq (h : Follows s t use) (hs : s.Indexed) (ht : t.Indexed)
    (bounded : 0 < t.recency.capacity) (hkeys : keys.Sublist s.recency.toList)
    (hunused : ∀ k ∈ keys, use ≠ some k)
    (hmem : ∀ k, k ∈ keys ++ use.toList ↔ ∃ e, t.entries[k]? = some e) :
    t.recency.toList = keys ++ use.toList := by
  have hbefore : ∀ a b, a ∈ keys ++ use.toList → b ∈ keys ++ use.toList →
      (use = some b ∧ a ≠ b ∨ use ≠ some a ∧ use ≠ some b ∧ s.Before a b) → t.Before a b := by
    intro a b ha hb
    obtain ⟨e, he⟩ := (hmem a).mp ha
    obtain ⟨f, hf⟩ := (hmem b).mp hb
    exact (h.before_iff hs ht bounded he hf).mpr
  refine ht.toList_eq bounded (List.pairwise_append.mpr ⟨?_, ?_, ?_⟩) hmem
  · refine (hs.pairwise_toList.sublist hkeys).imp_of_mem fun ha hb hab => ?_
    exact hbefore _ _ (List.mem_append_left _ ha) (List.mem_append_left _ hb)
      (.inr ⟨hunused _ ha, hunused _ hb, hab⟩)
  · cases use <;> simp
  · intro a ha b hb
    have hub : use = some b := Option.mem_toList.mp hb
    refine hbefore a b (List.mem_append_left _ ha) (List.mem_append_right _ hb) (.inl ⟨hub, ?_⟩)
    rintro rfl
    exact hunused a ha hub

end Store

end ExpiringCache
