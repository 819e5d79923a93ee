import ExpiringCache.Proofs.Listing
import ExpiringCache.Proofs.Views

/-!
# Changing one thing about one key

An update changes the value of a live key, and a new lifetime its deadline. Each of them has three
indices to keep in step, and neither may do more than it says: whatever is stored of other keys,
expired or not, stays as it was once the pending touches were replayed.

1. **One key** (`Store.SameBut`): two stores that differ in one key at most.
2. **One thing** (`Store.Revalued`, `Store.Redated`, `Store.Deleted`): another value, another
   deadline, or no entry any more, each with what becomes of the deadlines and the order of use.
3. **The cache** (`Cache.RevisesOneKey`): in every open state that sections lead to, what both
   operations answer and what they leave, for a live key and for one that is not.
-/

namespace ExpiringCache

variable {α β ρ : Type} [Ord α] [Std.TransOrd α]

namespace Store

/-! ## What is said of the other keys -/

/-- Of all keys but one both stores say the same: they have the same entries for them, the same
deadlines, and the same places in the order of use. -/
structure SameBut (key : α) (s t : Store α β) : Prop where
  entry_eq : ∀ k, k ≠ key → t.entries[k]? = s.entries[k]?
  holds_iff : ∀ k u, k ≠ key → (t.deadlines.Holds k u ↔ s.deadlines.Holds k u)
  order_iff : ∀ k (p : Nat), k ≠ key →
    (t.recency.order[p]? = some k ↔ s.recency.order[p]? = some k)
  capacity_eq : t.recency.capacity = s.recency.capacity
  tally_eq : t.tally = s.tally

/-- `t` is `s` with another value for a key, which is now the last one used. -/
structure Revalued (key : α) (e : Entry β) (value : β) (s t : Store α β) : Prop
    extends SameBut key s t where
  entry_key : ∃ position, t.entries[key]? = some { e with value, position }
  deadlines_eq : t.deadlines = s.deadlines
  moved : 0 < s.recency.capacity → ∃ front back, s.recency.toList = front ++ key :: back ∧
    t.recency.toList = front ++ back ++ [key]
  unordered : s.recency.capacity = 0 → t.recency = s.recency

/-- `t` is `s` with another deadline for a key, or none. -/
structure Redated (key : α) (e : Entry β) (deadline : Option Instant) (s t : Store α β) : Prop
    extends SameBut key s t where
  entry_key : t.entries[key]? = some { e with deadline }
  holds_key : ∀ u, t.deadlines.Holds key u ↔ deadline = some u
  recency_eq : t.recency = s.recency

/-- `t` is `s` without a key: it has no entry, no deadline and no place in the order of use. -/
structure Deleted (key : α) (s t : Store α β) : Prop extends SameBut key s t where
  entry_key : t.entries[key]? = none
  not_holds : ∀ u, ¬ t.deadlines.Holds key u
  unlisted : 0 < s.recency.capacity → ∃ front back, s.recency.toList = front ++ key :: back ∧
    t.recency.toList = front ++ back
  unordered : s.recency.capacity = 0 → t.recency = s.recency

variable {s t : Store α β} {key : α} {now : Instant} {e : Entry β}

/-- Indices that fit the entries say the same of a key whose entry is the same. -/
theorem Indexed.sameBut (hs : s.Indexed) (ht : t.Indexed)
    (hentries : ∀ k, k ≠ key → t.entries[k]? = s.entries[k]?)
    (hcap : t.recency.capacity = s.recency.capacity) (htally : t.tally = s.tally) :
    SameBut key s t where
  entry_eq := hentries
  holds_iff k u hk := by rw [ht.dated.holds_iff, hs.dated.holds_iff, hentries k hk]
  order_iff k p hk := by rw [ht.ranked.order_iff, hs.ranked.order_iff, hentries k hk]
  capacity_eq := hcap
  tally_eq := htally

/-! ## One thing about the key -/

/-- The key gives up its place in the list, and the others keep theirs. -/
theorem Indexed.exists_toList (hs : s.Indexed) (bounded : 0 < s.recency.capacity)
    (he : s.entries[key]? = some e) :
    ∃ front back, s.recency.toList = front ++ key :: back ∧
      ∀ k, k ∈ front ++ back ↔ k ≠ key ∧ ∃ f, s.entries[k]? = some f := by
  obtain ⟨front, back, hlist⟩ := List.append_of_mem ((hs.mem_toList bounded).mpr ⟨e, he⟩)
  refine ⟨front, back, hlist, fun k => ?_⟩
  have hnodup := nodup_of_before hs.pairwise_toList
  rw [← hs.mem_toList bounded, hlist]
  rw [hlist, List.nodup_middle, List.nodup_cons] at hnodup
  constructor
  · intro hk
    refine ⟨fun hkey => hnodup.1 (hkey ▸ hk), ?_⟩
    rw [List.mem_append] at hk
    simp only [List.mem_append, List.mem_cons]
    tauto
  · rintro ⟨hne, hk⟩
    simp only [List.mem_append, List.mem_cons] at hk
    rw [List.mem_append]
    tauto

variable [Std.LawfulEqOrd α]

theorem Indexed.revalued (h : s.Indexed) (he : s.entries[key]? = some e) (value : β) :
    Revalued key e value s (s.replaceValue key value) := by
  have hindexed := h.replaceValue key value
  have hother : ∀ k, k ≠ key → (s.replaceValue key value).entries[k]? = s.entries[k]? := by
    intro k hk
    rw [replaceValue_of_stored he, getElem?_touch_of_ne hk, getElem?_insert_of_ne hk]
  -- what the touch leaves of the entry is all but its position
  have hkey : ∃ position, (s.replaceValue key value).entries[key]? =
      some { e with value, position } := by
    rw [replaceValue_of_stored he]
    rcases touch_cases { s with entries := s.entries.insert key { e with value } } key with
      hsame | ⟨hcap, f, hf⟩
    · exact ⟨e.position, by rw [hsame, Std.ExtTreeMap.getElem?_insert_self]⟩
    · rw [touch_of_stored hcap hf, Std.ExtTreeMap.getElem?_insert_self]
      rw [Std.ExtTreeMap.getElem?_insert_self] at hf
      exact ⟨some s.recency.next, by rw [← Option.some.inj hf]⟩
  refine ⟨h.sameBut hindexed hother capacity_replaceValue tally_replaceValue, hkey, ?_, ?_, ?_⟩
  · rw [replaceValue_of_stored he, deadlines_touch]
  · intro bounded
    obtain ⟨front, back, hlist, hmem⟩ := h.exists_toList bounded he
    refine ⟨front, back, hlist, ?_⟩
    refine (follows_replaceValue h key value).toList_eq h hindexed
      (by rwa [capacity_replaceValue]) ?_ ?_ ?_
    · rw [hlist]
      exact (List.sublist_cons_self key back).append_left front
    · intro k hk hused
      exact ((hmem k).mp hk).1 (Option.some.inj hused).symm
    · intro k
      rw [List.mem_append, hmem, Option.mem_toList, Option.some.injEq]
      by_cases hk : k = key
      · subst hk
        obtain ⟨position, hstored⟩ := hkey
        exact iff_of_true (.inr rfl) ⟨_, hstored⟩
      · rw [hother k hk]
        simp [hk, Ne.symm hk]
  · intro unbounded
    rw [replaceValue_of_stored he, touch_of_unbounded (by exact unbounded)]

theorem Indexed.redated (h : s.Indexed) (hlive : s.live? key now = some e)
    (lifetime : Lifetime) :
    Redated key e (lifetime.deadline now) s (s.setLifetime key lifetime now) := by
  have hindexed := h.setLifetime key lifetime now
  have hkey : (s.setLifetime key lifetime now).entries[key]? =
      some { e with deadline := lifetime.deadline now } := by simp [Store.setLifetime, hlive]
  refine ⟨h.sameBut hindexed (fun k hk => ?_) capacity_setLifetime tally_setLifetime, hkey,
    fun u => ?_, by simp [Store.setLifetime, hlive]⟩
  · simp [Store.setLifetime, hlive, getElem?_insert_of_ne hk]
  · rw [hindexed.dated.holds_iff, hkey, Option.bind_some]

theorem Indexed.deleted (h : s.Indexed) (he : s.entries[key]? = some e) :
    Deleted key s (s.remove key).2 := by
  have hindexed := h.remove key
  have hother : ∀ k, k ≠ key → (s.remove key).2.entries[k]? = s.entries[k]? :=
    fun k hk => getElem?_remove_of_ne hk
  refine ⟨h.sameBut hindexed hother capacity_remove tally_remove, getElem?_remove_self,
    fun u => ?_, fun bounded => ?_, fun unbounded => ?_⟩
  · rw [hindexed.dated.holds_iff, getElem?_remove_self]
    simp
  · obtain ⟨front, back, hlist, hmem⟩ := h.exists_toList bounded he
    refine ⟨front, back, hlist, ?_⟩
    rw [← List.append_nil (front ++ back)]
    refine (follows_remove key).toList_eq h hindexed (by rwa [capacity_remove]) ?_ nofun ?_
    · rw [hlist]
      exact (List.sublist_cons_self key back).append_left front
    · intro k
      rw [Option.toList_none, List.append_nil, hmem]
      by_cases hk : k = key
      · subst hk
        simp [getElem?_remove_self]
      · simp [hk, hother k hk]
  · -- without a bound no entry has a place to give up
    have hnone : e.position = none := by simpa [unbounded] using h.ranked.placed_iff key e he
    simp [Store.remove, he, hnone]

end Store

namespace Cache

variable {c : Cache α β} {key : α} {now : Instant} {e : Entry β}

/-- The cache with its touches replayed and `store` for its store. -/
def revised (c : Cache α β) (store : Store α β) : Cache α β := { c.settle with store }

/-- What an update and a new lifetime do in an open cache: they change one thing about one key, and
no event tells of it. -/
structure RevisesOneKey (c : Cache α β) (key : α) (now : Instant) : Prop where
  /-- If the key is not live, nothing changes, whether or not an expired entry is stored. -/
  dead_update : (c.contains key now).answer = false → ∀ value : Option β,
    c.update key value now = ⟨c.settle, (none, false), []⟩
  dead_setLifetime : (c.contains key now).answer = false → ∀ lifetime,
    c.setLifetime key lifetime now = ⟨c.settle, .ok .absent, []⟩ ∧ TimeLeft.absent.toMillis = -1
  /-- A live key answers an update with the value that a lookup would have found. -/
  live_update : (c.contains key now).answer = true → ∀ value,
    ∃ e t, c.settled.live? key now = some e ∧ (c.lookup key now).answer = some e.value ∧
      c.update key (some value) now =
        ⟨c.revised t, ((c.lookup key now).answer, true), []⟩ ∧
      Store.Revalued key e value c.settled t
  /-- A live key answers with what was left of the lifetime that it had. -/
  live_setLifetime : (c.contains key now).answer = true → ∀ lifetime, 0 ≤ lifetime.ns →
    ∃ e left deadline t, c.settled.live? key now = some e ∧
      (c.timeLeft key now).answer = .ok left ∧
      c.setLifetime key lifetime now = ⟨c.revised t, .ok left, []⟩ ∧
      Store.Redated key e deadline c.settled t ∧
      (lifetime.ns = 0 → deadline = none) ∧
      (lifetime.ns ≠ 0 → ∃ u, deadline = some u ∧
        u.ms = min 9223372036854775807 (now.ms + max 1 lifetime.wholeMillis))
  /-- A value that is absent and a lifetime that is negative both delete the key. -/
  live_delete : (c.contains key now).answer = true →
    ∃ left t, (c.timeLeft key now).answer = .ok left ∧
      c.update key none now = ⟨c.revised t, ((c.lookup key now).answer, true), []⟩ ∧
      (∀ lifetime : Lifetime, lifetime.ns < 0 →
        c.setLifetime key lifetime now = ⟨c.revised t, .ok left, []⟩) ∧
      Store.Deleted key c.settled t

variable [Std.LawfulEqOrd α]

/-- What was left of a live key's lifetime does not depend on pending touches. -/
theorem timeLeft_of_live (hnow : 0 ≤ now.ms)
    (hlive : c.settled.live? key now = some e) :
    ∃ left, (c.timeLeft key now).answer = .ok left ∧ e.timeLeftAt now = .ok left := by
  refine ⟨Rows.timeLeft e.content now, ?_,
    timeLeftAt_of_live hnow (Store.live?_eq_some_iff.mp hlive).2⟩
  rw [answer_timeLeft hnow, ← contents_settled, Store.live?_contents, hlive]
  rfl

omit [Std.LawfulEqOrd α] in
theorem update_of_dead (hopen : c.closed = false) (hdead : c.settled.live? key now = none)
    (value : Option β) : c.update key value now = ⟨c.settle, (none, false), []⟩ := by
  rw [settled] at hdead
  simp only [update, writing, hopen, hdead, Bool.false_eq_true, if_false]

omit [Std.LawfulEqOrd α] in
theorem setLifetime_of_dead (hopen : c.closed = false) (hdead : c.settled.live? key now = none)
    (lifetime : Lifetime) : c.setLifetime key lifetime now = ⟨c.settle, .ok .absent, []⟩ := by
  rw [settled] at hdead
  simp only [setLifetime, writing, hopen, hdead, Bool.false_eq_true, if_false]

omit [Std.LawfulEqOrd α] in
theorem update_of_live (hopen : c.closed = false) (hlive : c.settled.live? key now = some e)
    (value : Option β) :
    c.update key value now =
      ⟨c.revised (value.elim (c.settled.remove key).2 (c.settled.replaceValue key)),
        (some e.value, true), []⟩ := by
  rw [settled] at hlive ⊢
  cases value <;> simp [update, writing, hopen, hlive, revised]

omit [Std.LawfulEqOrd α] in
theorem setLifetime_of_live (hopen : c.closed = false)
    (hlive : c.settled.live? key now = some e) {left : TimeLeft}
    (hleft : e.timeLeftAt now = .ok left) (lifetime : Lifetime) :
    c.setLifetime key lifetime now =
      ⟨c.revised (if 0 ≤ lifetime.ns then c.settled.setLifetime key lifetime now
        else (c.settled.remove key).2), .ok left, []⟩ := by
  rw [settled] at hlive ⊢
  simp [setLifetime, writing, hopen, hlive, hleft, revised, Lifetime.isStorable]

theorem Consistent.revisesOneKey (h : c.Consistent) (hopen : c.closed = false)
    (hnow : 0 ≤ now.ms) (key : α) : c.RevisesOneKey key now := by
  have hcontains : (c.contains key now).answer = (c.settled.live? key now).isSome :=
    (isSome_live?_settled c key now).symm
  have hlookup : (c.lookup key now).answer = (c.settled.live? key now).map (·.value) := by
    rw [answer_lookup, value_live?_settled]
  have hdead : (c.contains key now).answer = false → c.settled.live? key now = none := by
    intro hcontained
    rwa [hcontains, Option.isSome_eq_false_iff, Option.isNone_iff_eq_none] at hcontained
  have hlive : (c.contains key now).answer = true →
      ∃ e, c.settled.live? key now = some e ∧ (c.lookup key now).answer = some e.value := by
    intro hcontained
    rw [hcontains, Option.isSome_iff_exists] at hcontained
    obtain ⟨e, he⟩ := hcontained
    exact ⟨e, he, by rw [hlookup, he]; rfl⟩
  have hindexed := h.settled.indexed
  constructor
  · exact fun hcontained => update_of_dead hopen (hdead hcontained)
  · exact fun hcontained lifetime => ⟨setLifetime_of_dead hopen (hdead hcontained) lifetime, rfl⟩
  · intro hcontained value
    obtain ⟨e, he, hfound⟩ := hlive hcontained
    refine ⟨e, _, he, hfound, ?_,
      hindexed.revalued (Store.live?_eq_some_iff.mp he).1 value⟩
    rw [hfound]
    exact update_of_live hopen he (some value)
  · intro hcontained lifetime hns
    obtain ⟨e, he, -⟩ := hlive hcontained
    obtain ⟨left, htimeLeft, hleft⟩ := timeLeft_of_live hnow he
    refine ⟨e, left, _, _, he, htimeLeft, ?_, hindexed.redated he lifetime,
      Lifetime.deadline_eq_none_iff.mpr, (Lifetime.exists_deadline · now)⟩
    rw [setLifetime_of_live hopen he hleft, if_pos hns]
  · intro hcontained
    obtain ⟨e, he, hfound⟩ := hlive hcontained
    obtain ⟨left, htimeLeft, hleft⟩ := timeLeft_of_live hnow he
    refine ⟨left, _, htimeLeft, ?_, fun lifetime hns => ?_,
      hindexed.deleted (Store.live?_eq_some_iff.mp he).1⟩
    · rw [hfound]
      exact update_of_live hopen he none
    · rw [setLifetime_of_live hopen he hleft, if_neg (by omega)]

/-- In every open state that a run of sections leads to, an update and a new lifetime change one
thing about one key. The clock does not show a moment before the epoch. -/
theorem revisesOneKey_of_reachable (capacity batch : Nat) (sweeper : Option Nat)
    (run : List (Section α β × Instant))
    (hopen : ({ (empty capacity batch : Cache α β) with sweeper }.enactAll run).closed = false)
    {now : Instant} (hnow : 0 ≤ now.ms) (key : α) :
    ({ (empty capacity batch : Cache α β) with sweeper }.enactAll run).RevisesOneKey key now := by
  exact ((consistent_start capacity batch sweeper).enactAll run).revisesOneKey hopen hnow key

/-- Two keys have the same deadline when one of them is extended, and one is hit. Later an update
moves one key behind the other two, and a key that expired keeps its slot. -/
theorem revisesOneKey_of_shared_deadline :
    let run : List (Section Nat Nat × Instant) :=
      [(.perform (.setAll [(1, some 10), (2, some 20), (3, some 30)] (.ofMillis 5)), .clamp 0),
        (.perform (.setLifetime 2 (.ofMillis 9)), .clamp 1),
        (.look ⟨.getOrSet, 1, .forever⟩, .clamp 2)]
    let c := { (empty 3 1 : Cache Nat Nat) with sweeper := some 0 }.enactAll run
    c.closed = false ∧ 0 ≤ (Instant.clamp 6).ms ∧ c.settled.recency.toList = [2, 3, 1] ∧
      (c.contains 2 (.clamp 6)).answer = true ∧ (c.contains 3 (.clamp 6)).answer = false ∧
      (c.update 2 (some 21) (.clamp 6)).cache.store.recency.toList = [3, 1, 2] ∧
      (c.update 3 (some 31) (.clamp 6)).cache.store.recency.toList = [2, 3, 1] ∧
      c.RevisesOneKey 2 (.clamp 6) ∧ c.RevisesOneKey 3 (.clamp 6) := by
  intro run c
  have hopen : c.closed = false := by decide +kernel
  have hnow : 0 ≤ (Instant.clamp 6).ms := by decide
  refine ⟨hopen, hnow, by decide +kernel, by decide +kernel, by decide +kernel, by decide +kernel,
    by decide +kernel, ?_, ?_⟩
  · exact revisesOneKey_of_reachable 3 1 (some 0) run hopen hnow 2
  · exact revisesOneKey_of_reachable 3 1 (some 0) run hopen hnow 3

end Cache

end ExpiringCache
