import ExpiringCache.Proofs.Listing
import Mathlib.Data.List.Sort

/-!
# The order of use, over any calls

The order of use is told by its callers what to forget. Whatever they tell it, it tracks the
positions that it handed out and was not told to drop; and if every caller gives back the position
that its key had, the order is that of the last touches.

1. **Calls** (`Call`, `callAll`): what is asked of the order, with positions that need not be those
   of any key.
2. **Positions** (`positions_callAll`, `callAll_tracks_iff`): they are handed out in turn, and each
   one is tracked until a call drops it (`Call.Drops`).
3. **Last touches** (`lastTouch?`, `Careful`): the position last handed out for a key, and calls
   that give it back. A key that they leave is tracked there and nowhere else
   (`Careful.lastTouch?_eq`).
4. **Evicting everything** (`evictAll`): until nothing is left, which gives the list of the tracked
   keys (`evictAll_eq`).
-/

namespace ExpiringCache.Recency

variable {α : Type}

/-! ## Calls -/

/-- Something asked of the order. -/
inductive Call (α : Type) where
  | touch (key : α) (current : Option Nat)
  | remove (position : Nat)
  | evict

/-- What comes back. -/
inductive Reply (α : Type) where
  | position (p : Nat)
  | key (key? : Option α)
deriving DecidableEq

def call (r : Recency α) : Call α → Reply α × Recency α
  | .touch key current =>
    let touched := r.touch key current
    (.position touched.1, touched.2)
  | .remove position =>
    let removed := r.remove position
    (.key removed.1, removed.2)
  | .evict =>
    match r.evictOldest? with
    | none => (.key none, r)
    | some (key, rest) => (.key (some key), rest)

/-- Calls one after the other. -/
def callAll : List (Call α) → Recency α → List (Reply α) × Recency α
  | [], r => ([], r)
  | c :: calls, r =>
    let one := r.call c
    let rest := callAll calls one.2
    (one.1 :: rest.1, rest.2)

/-- The key that is touched. -/
def Call.touched? : Call α → Option α
  | .touch key _ => some key
  | .remove _ => none
  | .evict => none

/-- The keys that are touched. The position handed out for one of them is its place among them. -/
def touched (calls : List (Call α)) : List α := calls.filterMap Call.touched?

def Reply.position? : Reply α → Option Nat
  | .position p => some p
  | .key _ => none

/-- The positions that are handed out. -/
def positions (replies : List (Reply α)) : List Nat := replies.filterMap Reply.position?

/-- The call ends the tracking of `p`: it takes the place of `p`, removes it, or evicts it because
no smaller position is tracked. -/
def Call.Drops (r : Recency α) (p : Nat) : Call α → Prop
  | .touch _ current => current = some p
  | .remove position => position = p
  | .evict => p ∈ r.order ∧ ∀ q ∈ r.order, p ≤ q

variable {r : Recency α} {c : Call α} {calls before : List (Call α)} {key : α} {p capacity : Nat}

theorem mem_order_of_getElem? (h : r.order[p]? = some key) : p ∈ r.order := by
  simp [Std.ExtTreeMap.mem_iff_isSome_getElem?, h]

theorem callAll_append_singleton (calls : List (Call α)) (c : Call α) (r : Recency α) :
    (callAll (calls ++ [c]) r).2 = ((callAll calls r).2.call c).2 := by
  induction calls generalizing r with
  | nil => rfl
  | cons first calls ih => exact ih (r.call first).2

theorem touched_append_singleton (calls : List (Call α)) (c : Call α) :
    touched (calls ++ [c]) = touched calls ++ c.touched?.toList := by
  rw [touched, List.filterMap_append, touched]
  cases c <;> rfl

/-! ## Positions -/

theorem next_call (r : Recency α) (c : Call α) :
    (r.call c).2.next = r.next + c.touched?.toList.length := by
  cases c with
  | touch key current => rfl
  | remove position => rfl
  | evict =>
    rw [call, evictOldest?]
    cases r.first? <;> rfl

theorem position?_call (r : Recency α) (c : Call α) :
    (r.call c).1.position? = c.touched?.map fun _ => r.next := by
  cases c with
  | touch key current => rfl
  | remove position => rfl
  | evict =>
    rw [call]
    cases r.evictOldest? <;> rfl

theorem next_callAll (calls : List (Call α)) (r : Recency α) :
    (callAll calls r).2.next = r.next + (touched calls).length := by
  induction calls using List.reverseRecOn with
  | nil => rfl
  | append_singleton calls c ih =>
    rw [callAll_append_singleton, next_call, ih, touched_append_singleton, List.length_append,
      Nat.add_assoc]

theorem next_callAll_empty (capacity : Nat) (calls : List (Call α)) :
    (callAll calls (empty capacity)).2.next = (touched calls).length := by
  rw [next_callAll]
  exact Nat.zero_add _

/-- Positions are handed out in turn. -/
theorem positions_callAll (calls : List (Call α)) (r : Recency α) :
    positions (callAll calls r).1 = List.range' r.next (touched calls).length := by
  induction calls generalizing r with
  | nil => rfl
  | cons c calls ih =>
    rw [callAll, positions, List.filterMap_cons, position?_call, touched, List.filterMap_cons,
      ← positions, ih, next_call]
    cases c <;> rfl

/-- All tracked positions were handed out. -/
def Below (r : Recency α) : Prop := ∀ p ∈ r.order, p < r.next

theorem below_empty (capacity : Nat) : (empty capacity : Recency α).Below := by
  simp [Below, empty]

/-- A call tracks the touched key at the next position, and drops what it says. -/
theorem Below.getElem?_order_call (h : r.Below) :
    (r.call c).2.order[p]? = some key ↔
      c.touched? = some key ∧ p = r.next ∨ r.order[p]? = some key ∧ ¬ c.Drops r p := by
  have hp : r.order[p]? = some key → p ≠ r.next := by
    intro hp
    have := h p (mem_order_of_getElem? hp)
    omega
  cases c with
  | touch k current =>
    simp only [call, getElem?_order_touch, Call.touched?, Call.Drops]
    split
    · simp_all
    · split <;> simp_all
  | remove position =>
    simp only [call, getElem?_order_remove, Call.touched?, Call.Drops]
    split <;> simp_all [eq_comm]
  | evict =>
    simp only [call, evictOldest?, Call.touched?, Call.Drops]
    cases hfirst : r.first? with
    | none =>
      rw [first?_eq_none_iff] at hfirst
      simp [hfirst]
    | some oldest =>
      obtain ⟨q, k⟩ := oldest
      obtain ⟨hq, hleast⟩ := first?_eq_some_iff.mp hfirst
      have hmem : q ∈ r.order := mem_order_of_getElem? hq
      have hdrops : (p ∈ r.order ∧ ∀ q ∈ r.order, p ≤ q) ↔ p = q := by
        constructor
        · rintro ⟨hp, hle⟩
          exact Nat.le_antisymm (hle q hmem) (hleast p hp)
        · rintro rfl
          exact ⟨hmem, hleast⟩
      rw [hdrops]
      by_cases hpq : p = q
      · simp [hpq]
      · simp [Std.ExtTreeMap.getElem?_erase, hpq, Ne.symm hpq]

theorem Below.call (h : r.Below) (c : Call α) : (r.call c).2.Below := by
  intro p hp
  rw [Std.ExtTreeMap.mem_iff_isSome_getElem?, Option.isSome_iff_exists] at hp
  obtain ⟨key, hp⟩ := hp
  rw [next_call]
  rcases h.getElem?_order_call.mp hp with ⟨htouched, rfl⟩ | ⟨hp, -⟩
  · simp [htouched]
  · have := h p (mem_order_of_getElem? hp)
    omega

theorem Below.callAll (h : r.Below) (calls : List (Call α)) :
    (Recency.callAll calls r).2.Below := by
  induction calls generalizing r with
  | nil => exact h
  | cons c calls ih => exact ih (h.call c)

/-- No call since `p` was handed out dropped it. -/
def Kept (capacity : Nat) (calls : List (Call α)) (p : Nat) : Prop :=
  ∀ before c, before ++ [c] <+: calls → p < (touched before).length →
    ¬ c.Drops (callAll before (empty capacity)).2 p

theorem kept_append_singleton :
    Kept capacity (calls ++ [c]) p ↔
      Kept capacity calls p ∧
        (p < (touched calls).length → ¬ c.Drops (callAll calls (empty capacity)).2 p) := by
  constructor
  · intro h
    exact ⟨fun before c hsofar => h before c (hsofar.trans (List.prefix_append _ _)),
      h calls c (List.prefix_refl _)⟩
  · rintro ⟨h, hlast⟩ before d hsofar
    rcases List.prefix_concat_iff.mp hsofar with heq | hsofar
    · obtain ⟨rfl, hd⟩ := List.append_inj' heq rfl
      obtain rfl : d = c := by simpa using hd
      exact hlast
    · exact h before d hsofar

/-- A position that has not been handed out has not been dropped since. -/
theorem kept_of_le (h : (touched calls).length ≤ p) : Kept capacity calls p := by
  intro before c hsofar hp
  have hsub : (touched before).Sublist (touched calls) :=
    (((List.prefix_append before [c]).trans hsofar).sublist).filterMap _
  exact absurd hsub.length_le (by omega)

/-- What is tracked are the positions that were handed out and not dropped since. -/
theorem getElem?_order_callAll (capacity : Nat) (calls : List (Call α)) :
    (callAll calls (empty capacity)).2.order[p]? = some key ↔
      (touched calls)[p]? = some key ∧ Kept capacity calls p := by
  induction calls using List.reverseRecOn with
  | nil => simp [callAll, empty, touched]
  | append_singleton calls c ih =>
    have hbelow := (below_empty (α := α) capacity).callAll calls
    rw [callAll_append_singleton, hbelow.getElem?_order_call, ih, kept_append_singleton,
      next_callAll_empty, touched_append_singleton]
    rcases Nat.lt_trichotomy p (touched calls).length with hp | rfl | hp
    · rw [List.getElem?_append_left hp]
      have := Nat.ne_of_lt hp
      tauto
    · have hkept : Kept capacity calls (touched calls).length := kept_of_le (Nat.le_refl _)
      cases c.touched? <;> simp [hkept]
    · have hlength : c.touched?.toList.length ≤ 1 := Option.length_toList_le
      rw [List.getElem?_eq_none (by omega), List.getElem?_eq_none (by simp; omega)]
      have := Nat.ne_of_gt hp
      simp [this]

/-! ## Last touches -/

section LastTouches

variable [DecidableEq α]

/-- The position last handed out for a key. -/
def lastTouch? (calls : List (Call α)) (key : α) : Option Nat :=
  ((touched calls).reverse.idxOf? key).map fun i => (touched calls).length - 1 - i

/-- The position last handed out for a key, if it is still tracked after the calls. -/
def positionOf? (capacity : Nat) (calls : List (Call α)) (key : α) : Option Nat :=
  (lastTouch? calls key).filter fun p => p ∈ (callAll calls (empty capacity)).2.order

/-- A touch that gives back the position of its key, or any other call. -/
def Call.Honest (capacity : Nat) (before : List (Call α)) : Call α → Prop
  | .touch key current => current = positionOf? capacity before key
  | .remove _ => True
  | .evict => True

instance (capacity : Nat) (before : List (Call α)) (c : Call α) :
    Decidable (c.Honest capacity before) :=
  match c with
  | .touch key current => inferInstanceAs (Decidable (current = positionOf? capacity before key))
  | .remove _ => .isTrue trivial
  | .evict => .isTrue trivial

/-- Every touch gives back the position of its key. -/
def Careful (capacity : Nat) (calls : List (Call α)) : Prop :=
  ∀ n (h : n < calls.length), calls[n].Honest capacity (calls.take n)

instance (capacity : Nat) (calls : List (Call α)) : Decidable (Careful capacity calls) :=
  inferInstanceAs (Decidable (∀ n (h : n < calls.length),
    calls[n].Honest capacity (calls.take n)))

theorem Careful.of_append_singleton (h : Careful capacity (calls ++ [c])) :
    Careful capacity calls ∧ c.Honest capacity calls := by
  have hlength : (calls ++ [c]).length = calls.length + 1 := by simp
  constructor
  · intro n hn
    have hcall := h n (by omega)
    rwa [List.getElem_append_left hn, List.take_append_of_le_length (Nat.le_of_lt hn)] at hcall
  · have hlast := h calls.length (by omega)
    rwa [List.getElem_concat_length rfl, List.take_left] at hlast

theorem lastTouch?_append_singleton (calls : List (Call α)) (c : Call α) (key : α) :
    lastTouch? (calls ++ [c]) key =
      if c.touched? = some key then some (touched calls).length else lastTouch? calls key := by
  rw [lastTouch?, lastTouch?, touched_append_singleton]
  cases c.touched? with
  | none => simp
  | some k =>
    by_cases hk : k = key
    · simp [hk, List.idxOf?_cons]
    · simp only [hk, List.idxOf?_cons, Option.toList_some, List.reverse_append,
        List.reverse_singleton, List.singleton_append, beq_iff_eq, if_false, Option.map_map,
        List.length_append, List.length_singleton, Option.some.injEq]
      refine congrArg (Option.map · _) (funext fun i => ?_)
      show (touched calls).length + 1 - 1 - (i + 1) = (touched calls).length - 1 - i
      omega

/-- It is the last place of the key among those touched. -/
theorem lastTouch?_eq_some_iff :
    lastTouch? calls key = some p ↔
      (touched calls)[p]? = some key ∧ ∀ q, p < q → (touched calls)[q]? ≠ some key := by
  induction calls using List.reverseRecOn with
  | nil => simp [lastTouch?, touched]
  | append_singleton calls c ih =>
    rw [lastTouch?_append_singleton, touched_append_singleton]
    cases htouched : c.touched? with
    | none => simpa using ih
    | some k =>
      have hplace : ∀ q, (touched calls ++ [k])[q]? = some key ↔
          (touched calls)[q]? = some key ∨ k = key ∧ q = (touched calls).length := by
        intro q
        rcases Nat.lt_trichotomy q (touched calls).length with hq | rfl | hq
        · simp [List.getElem?_append_left hq, Nat.ne_of_lt hq]
        · simp
        · simp [Nat.ne_of_gt hq, Nat.le_of_lt hq, hq]
      simp only [Option.toList_some, ne_eq, hplace, Option.some.injEq]
      by_cases hk : k = key
      · simp only [hk, if_true, true_and, Option.some.injEq, not_or]
        constructor
        · rintro rfl
          refine ⟨.inr rfl, fun q hq => ⟨?_, Nat.ne_of_gt hq⟩⟩
          simp [List.getElem?_eq_none (Nat.le_of_lt hq)]
        · rintro ⟨hp | hp, hlast⟩
          · have hlt : p < (touched calls).length := (List.getElem?_eq_some_iff.mp hp).1
            exact absurd rfl (hlast _ hlt).2
          · exact hp.symm
      · simpa [hk] using ih

/-- A key that careful calls leave is tracked where it was last touched. -/
theorem Careful.lastTouch?_eq (h : Careful capacity calls)
    (hp : (callAll calls (empty capacity)).2.order[p]? = some key) :
    lastTouch? calls key = some p := by
  induction calls using List.reverseRecOn with
  | nil => simp [callAll, empty] at hp
  | append_singleton calls c ih =>
    obtain ⟨hcareful, hhonest⟩ := h.of_append_singleton
    have hbelow := (below_empty (α := α) capacity).callAll calls
    rw [callAll_append_singleton] at hp
    rw [lastTouch?_append_singleton]
    rcases hbelow.getElem?_order_call.mp hp with ⟨htouched, rfl⟩ | ⟨hheld, hkept⟩
    · rw [if_pos htouched, next_callAll_empty]
    · have hlast := ih hcareful hheld
      rw [if_neg, hlast]
      -- the touch of a key drops the position that it had
      intro htouched
      cases c with
      | touch k current =>
        obtain rfl : k = key := Option.some.inj htouched
        have hmem : p ∈ (callAll calls (empty capacity)).2.order :=
          mem_order_of_getElem? hheld
        have hcurrent : current = positionOf? capacity calls k := hhonest
        rw [positionOf?, hlast, Option.filter_some, if_pos (decide_eq_true hmem)] at hcurrent
        exact hkept hcurrent
      | remove position => cases htouched
      | evict => cases htouched

end LastTouches

/-! ## Evicting everything -/

/-- Evicts until nothing is left, in at most `fuel` calls; nothing, if that is not the end of it. -/
def evictAll : Nat → Recency α → Option (List α × Recency α)
  | 0, _ => none
  | fuel + 1, r =>
    match r.evictOldest? with
    | none => some ([], r)
    | some (key, rest) => (evictAll fuel rest).map fun gone => (key :: gone.1, gone.2)

/-- The key that is evicted is the first of the list. -/
theorem toList_of_evictOldest? {rest : Recency α} (h : r.evictOldest? = some (key, rest)) :
    r.toList = key :: rest.toList := by
  obtain ⟨⟨p, k⟩, hfirst, heq⟩ := Option.map_eq_some_iff.mp h
  obtain ⟨rfl, rfl⟩ := Prod.mk.inj heq
  obtain ⟨hp, hleast⟩ := first?_eq_some_iff.mp hfirst
  have hmem : ∀ entry, entry ∈ r.order.toList ↔
      entry ∈ (p, k) :: (r.order.erase p).toList := by
    rintro ⟨q, k'⟩
    rw [List.mem_cons, Std.ExtTreeMap.mem_toList_iff_getElem?_eq_some,
      Std.ExtTreeMap.mem_toList_iff_getElem?_eq_some, Std.ExtTreeMap.getElem?_erase]
    by_cases hq : p = q
    · subst hq
      simp [hp, eq_comm]
    · simp [hq, Ne.symm hq]
  have hafter : ∀ entry ∈ (r.order.erase p).toList, compare p entry.1 = .lt := by
    rintro ⟨q, k'⟩ hentry
    rw [Std.ExtTreeMap.mem_toList_iff_getElem?_eq_some, Std.ExtTreeMap.getElem?_erase] at hentry
    split at hentry
    · cases hentry
    · rename_i hne
      have hle := hleast q (mem_order_of_getElem? hentry)
      rw [Nat.compare_eq_eq] at hne
      exact Nat.compare_eq_lt.mpr (by omega)
  -- both lists are sorted by position
  have hlist : r.order.toList = (p, k) :: (r.order.erase p).toList := by
    have hsorted := r.order.ordered_keys_toList
    have hcons : ((p, k) :: (r.order.erase p).toList).Pairwise
        fun a b => compare a.1 b.1 = .lt :=
      List.pairwise_cons.mpr ⟨hafter, (r.order.erase p).ordered_keys_toList⟩
    have hasymm : Std.Asymm fun a b : Nat × α => compare a.1 b.1 = .lt :=
      ⟨fun a b hab hba => Nat.lt_asymm (Nat.compare_eq_lt.mp hab) (Nat.compare_eq_lt.mp hba)⟩
    exact hsorted.eq_of_mem_iff hcons hmem
  rw [toList, hlist]
  rfl

/-- To evict until nothing is left comes to an end, and gives the list. -/
theorem evictAll_eq {fuel : Nat} (hfuel : r.toList.length < fuel) :
    evictAll fuel r = some (r.toList, { r with order := ∅ }) := by
  induction fuel generalizing r with
  | zero => exact absurd hfuel (Nat.not_lt_zero _)
  | succ fuel ih =>
    cases hevict : r.evictOldest? with
    | none =>
      rw [evictOldest?, Option.map_eq_none_iff] at hevict
      have hempty : r.order = ∅ := first?_eq_none_iff.mp hevict
      have hsame : { r with order := ∅ } = r := Recency.ext rfl hempty.symm rfl
      simp [evictAll, evictOldest?, hevict, toList, hempty, hsame]
    | some evicted =>
      obtain ⟨key, rest⟩ := evicted
      have hlist := toList_of_evictOldest? hevict
      have hless : rest.toList.length < fuel := by
        rw [hlist, List.length_cons] at hfuel
        omega
      have hsame : rest.capacity = r.capacity ∧ rest.next = r.next := by
        obtain ⟨_, -, heq⟩ := Option.map_eq_some_iff.mp hevict
        obtain ⟨-, rfl⟩ := Prod.mk.inj heq
        exact ⟨rfl, rfl⟩
      simp [evictAll, hevict, ih hless, hlist, hsame]

/-! ## All of it -/

/-- The order after some calls tracks what was handed out and not dropped since. As many positions
are handed out as there are touches, so those of fewer than `2 ^ 64` touches fit 64 bits. -/
structure Tracks (capacity : Nat) (calls : List (Call α)) (replies : List (Reply α))
    (r : Recency α) : Prop where
  positions_eq : positions replies = List.range (touched calls).length
  next_eq : r.next = (touched calls).length
  lt_next : ∀ p ∈ r.order, p < r.next
  tracked_iff : ∀ (p : Nat) (key : α),
    r.order[p]? = some key ↔ (touched calls)[p]? = some key ∧ Kept capacity calls p
  evictOldest?_eq : ∀ (p : Nat) (key : α), r.order[p]? = some key → (∀ q ∈ r.order, p ≤ q) →
    r.evictOldest? = some (key, { r with order := r.order.erase p })
  evictOldest?_eq_none : r.evictOldest? = none ↔ ∀ p, p ∉ r.order

/-- Each tracked key is tracked once, and evicting everything evicts each of them once, in the order
of the last touches. -/
structure InOrderOfTouches [DecidableEq α] (calls : List (Call α)) (r : Recency α) : Prop where
  once : ∀ (p q : Nat) (key : α), r.order[p]? = some key → r.order[q]? = some key → p = q
  evictAll_eq : ∀ fuel, r.size < fuel →
    evictAll fuel r = some (r.toList, { r with order := ∅ })
  mem_toList : ∀ key, key ∈ r.toList ↔ ∃ p : Nat, r.order[p]? = some key
  nodup : r.toList.Nodup
  pairwise : r.toList.Pairwise fun a b =>
    ∃ p q, lastTouch? calls a = some p ∧ lastTouch? calls b = some q ∧ p < q

theorem length_toList (r : Recency α) : r.toList.length = r.size := by
  rw [toList, List.length_map, Std.ExtTreeMap.length_toList, size]

theorem tracks_callAll (capacity : Nat) (calls : List (Call α)) :
    Tracks capacity calls (callAll calls (empty capacity)).1
      (callAll calls (empty capacity)).2 where
  positions_eq := by
    rw [positions_callAll, List.range_eq_range']
    rfl
  next_eq := next_callAll_empty capacity calls
  lt_next := (below_empty capacity).callAll calls
  tracked_iff _ _ := getElem?_order_callAll capacity calls
  evictOldest?_eq p key hp hleast := by
    rw [evictOldest?, first?_eq_some_iff.mpr ⟨hp, hleast⟩]
    rfl
  evictOldest?_eq_none := by
    rw [evictOldest?, Option.map_eq_none_iff, first?_eq_none_iff,
      Std.ExtTreeMap.eq_empty_iff_forall_not_mem]

theorem Careful.inOrderOfTouches [DecidableEq α] (h : Careful capacity calls) :
    InOrderOfTouches calls (callAll calls (empty capacity)).2 := by
  generalize hr : (callAll calls (empty capacity)).2 = r
  have hlast : ∀ p key, r.order[p]? = some key → lastTouch? calls key = some p := by
    intro p key hp
    exact h.lastTouch?_eq (hr ▸ hp)
  have hpairwise : r.toList.Pairwise fun a b =>
      ∃ p q, lastTouch? calls a = some p ∧ lastTouch? calls b = some q ∧ p < q := by
    rw [toList, List.pairwise_map]
    refine Std.ExtTreeMap.ordered_keys_toList.imp_of_mem ?_
    rintro ⟨p, a⟩ ⟨q, b⟩ ha hb hlt
    rw [Std.ExtTreeMap.mem_toList_iff_getElem?_eq_some] at ha hb
    exact ⟨p, q, hlast p a ha, hlast q b hb, Nat.compare_eq_lt.mp hlt⟩
  refine ⟨?_, ?_, fun key => Recency.mem_toList, hpairwise.imp ?_, hpairwise⟩
  · intro p q key hp hq
    exact Option.some.inj ((hlast p key hp).symm.trans (hlast q key hq))
  · intro fuel hfuel
    exact Recency.evictAll_eq (by rwa [length_toList])
  · rintro a b ⟨p, q, hp, hq, hlt⟩ rfl
    rw [hp, Option.some.injEq] at hq
    omega

/-- Whatever the calls, the order tracks what it handed out until it is told to drop it; if they are
careful, it is the order of the last touches. -/
theorem tracks_of_calls [DecidableEq α] (capacity : Nat) (calls : List (Call α)) :
    Tracks capacity calls (callAll calls (empty capacity)).1 (callAll calls (empty capacity)).2 ∧
      (Careful capacity calls →
        InOrderOfTouches calls (callAll calls (empty capacity)).2) :=
  ⟨tracks_callAll capacity calls, Careful.inOrderOfTouches⟩

/-- Three keys are touched twice, and a fourth that is removed. They are evicted as they were last
touched. -/
theorem tracks_of_seven_touches :
    let calls : List (Call Char) := [.touch 'a' none, .touch 'b' none, .touch 'c' none,
      .touch 'd' none, .touch 'a' (some 0), .remove 3, .touch 'c' (some 2), .touch 'b' (some 1)]
    let r := (callAll calls (empty 2)).2
    Careful 2 calls ∧ r.toList = ['a', 'c', 'b'] ∧
      Tracks 2 calls (callAll calls (empty 2)).1 r ∧ InOrderOfTouches calls r := by
  intro calls r
  have hcareful : Careful 2 calls := by decide +kernel
  obtain ⟨htracks, horder⟩ := tracks_of_calls 2 calls
  exact ⟨hcareful, by decide +kernel, htracks, horder hcareful⟩

end ExpiringCache.Recency
