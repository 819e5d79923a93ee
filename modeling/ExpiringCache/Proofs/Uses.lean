import Mathlib
import ExpiringCache.Proofs.Settled

/-!
# Uses and the order of use

The order of use is kept by numbers that every use hands out. Here it is shown to be the order in
which the history of a cache has its last uses.

1. **One deed** (`Store.Follows`): the key that a deed uses goes to the end, every other key stays
   where it is or is gone.
2. **Histories** (`LastUsedBefore`, `Store.Recorded`): whichever of two stored keys comes first in
   the order of use has its last use first in the history.
-/

namespace ExpiringCache

/-- The key that a deed uses: one that is written, found live or given another value. -/
def Deed.use? {α β : Type} : Deed α β → Option α
  | .hit key | .touch key | .insert key _ _ _ | .replace key _ => some key
  | .miss | .remove _ | .extend _ _ _ | .purge _ _ _ | .reset => none

theorem ne_of_unused {α : Type} {key k : α} (h : some key ≠ some k) : k ≠ key :=
  fun hkey => h (by rw [hkey])

/-- The last use of `a` in the history comes before the last use of `b`. -/
def LastUsedBefore {α : Type} (history : List α) (a b : α) : Prop :=
  ∃ past recent, history = past ++ a :: recent ∧ a ∉ recent ∧ b ∈ recent

section History

variable {α : Type} {history more : List α} {a b : α}

/-- Uses of other keys and of `b` do not bring `a` forward. -/
theorem LastUsedBefore.append (h : LastUsedBefore history a b) (ha : a ∉ more) :
    LastUsedBefore (history ++ more) a b := by
  obtain ⟨past, recent, rfl, hnot, hb⟩ := h
  refine ⟨past, recent ++ more, by simp, ?_, List.mem_append_left _ hb⟩
  rw [List.mem_append, not_or]
  exact ⟨hnot, ha⟩

/-- A key that is used now was used after every other key. -/
theorem lastUsedBefore_use (ha : a ∈ history) (hab : a ≠ b) :
    LastUsedBefore (history ++ [b]) a b := by
  -- the last occurrence is the first one from behind
  obtain ⟨recent, past, hsplit, hnot⟩ := List.eq_append_cons_of_mem (List.mem_reverse.mpr ha)
  have hhistory : history = past.reverse ++ a :: recent.reverse := by
    rw [← history.reverse_reverse, hsplit]
    simp
  refine ⟨past.reverse, recent.reverse ++ [b], by simp [hhistory], ?_, by simp⟩
  simp [hnot, hab]

/-- Nothing is used after the key that is used now. -/
theorem not_lastUsedBefore_use : ¬ LastUsedBefore (history ++ [a]) a b := by
  rintro ⟨past, recent, hsplit, hnot, hb⟩
  rcases List.eq_nil_or_concat recent with rfl | ⟨front, last, rfl⟩
  · cases hb
  · rw [List.concat_eq_append, ← List.cons_append, ← List.append_assoc,
      List.append_singleton_inj] at hsplit
    exact hnot (by simp [hsplit.2])

end History

namespace Store

variable {α β : Type} [Ord α] [Std.TransOrd α]

/-- In `t` the key `use` stands after everything in `s`, and every other key where it stood. -/
structure Follows (s t : Store α β) (use : Option α) : Prop where
  kept : ∀ (k : α) (e : Entry β), use ≠ some k → t.entries[k]? = some e →
    ∃ f, s.entries[k]? = some f ∧ f.position = e.position
  last : ∀ (k : α) (e : Entry β) (p : Nat), use = some k → t.entries[k]? = some e →
    e.position = some p → s.recency.next ≤ p

variable {s t u : Store α β} {use : Option α} {key : α} {now : Instant}

theorem stored_of_before_left {a b : α} (h : s.Before a b) : ∃ e, s.entries[a]? = some e := by
  obtain ⟨p, q, hp, -, -⟩ := h
  obtain ⟨e, he, -⟩ := Option.bind_eq_some_iff.mp hp
  exact ⟨e, he⟩

theorem stored_of_before_right {a b : α} (h : s.Before a b) : ∃ e, s.entries[b]? = some e := by
  obtain ⟨p, q, -, hq, -⟩ := h
  obtain ⟨e, he, -⟩ := Option.bind_eq_some_iff.mp hq
  exact ⟨e, he⟩

theorem Follows.restrict (h : Follows s t use)
    (hsub : ∀ (k : α) (e : Entry β), u.entries[k]? = some e → t.entries[k]? = some e) :
    Follows s u use :=
  ⟨fun k e hk he => h.kept k e hk (hsub k e he), fun k e p hk he => h.last k e p hk (hsub k e he)⟩

/-- Entries may go, for want of a use. -/
theorem follows_of_subset
    (hsub : ∀ (k : α) (e : Entry β), t.entries[k]? = some e → s.entries[k]? = some e) :
    Follows s t none :=
  ⟨fun k e _ he => ⟨e, hsub k e he, rfl⟩, fun _ _ _ hk => nomatch hk⟩

/-- Two stored keys after a deed: the one used just now is the later one, and others stand as
before. -/
theorem Follows.before_iff (h : Follows s t use) (hs : s.Indexed) (ht : t.Indexed)
    (bounded : 0 < t.recency.capacity) {a b : α} {e f : Entry β} (ha : t.entries[a]? = some e)
    (hb : t.entries[b]? = some f) :
    t.Before a b ↔ use = some b ∧ a ≠ b ∨ use ≠ some a ∧ use ≠ some b ∧ s.Before a b := by
  have hplace : ∀ k e, t.entries[k]? = some e → ∃ p, t.position? k = some p ∧
      (use = some k → s.recency.next ≤ p) ∧
      (use ≠ some k → s.position? k = some p ∧ p < s.recency.next) := by
    intro k e he
    obtain ⟨p, hpos, -⟩ := ht.ranked.position bounded he
    refine ⟨p, by simp [position?, he, hpos], fun hk => h.last k e p hk he hpos, fun hk => ?_⟩
    obtain ⟨f, hf, hsame⟩ := h.kept k e hk he
    have hp : s.position? k = some p := by simp [position?, hf, hsame, hpos]
    exact ⟨hp, hs.ranked.lt_next p k ((hs.ranked.order_iff p k).mpr hp)⟩
  obtain ⟨p, hp, hplast, hpkept⟩ := hplace a e ha
  obtain ⟨q, hq, hqlast, hqkept⟩ := hplace b f hb
  have hafter : t.Before a b ↔ p < q := by simp [Before, hp, hq]
  rw [hafter]
  by_cases hua : use = some a
  · -- nothing comes after the key used just now
    have hle : q ≤ p := by
      by_cases hub : use = some b
      · have hab : a = b := Option.some.inj (hua.symm.trans hub)
        subst hab
        rw [hp] at hq
        exact Nat.le_of_eq (Option.some.inj hq).symm
      · exact Nat.le_of_lt (Nat.lt_of_lt_of_le (hqkept hub).2 (hplast hua))
    have hsame : use = some b → a = b := fun hub => Option.some.inj (hua.symm.trans hub)
    constructor
    · intro hlt
      omega
    · rintro (⟨hub, hab⟩ | ⟨hna, -⟩)
      · exact absurd (hsame hub) hab
      · exact absurd hua hna
  · by_cases hub : use = some b
    · have hlt : p < q := Nat.lt_of_lt_of_le (hpkept hua).2 (hqlast hub)
      have hab : a ≠ b := fun hab => hua (hab ▸ hub)
      simp [hlt, hub, hab]
    · have hbefore : s.Before a b ↔ p < q := by
        simp [Before, (hpkept hua).1, (hqkept hub).1]
      simp [hua, hub, hbefore]

/-! ## Histories -/

/-- The history accounts for every stored key, and for the order that any two of them have. -/
structure Recorded (history : List α) (s : Store α β) : Prop where
  used : ∀ (k : α) (e : Entry β), s.entries[k]? = some e → k ∈ history
  ordered : ∀ a b, s.Before a b → LastUsedBefore history a b

theorem recorded_empty (capacity : Nat) : Recorded [] (empty capacity : Store α β) where
  used k e he := by simp [empty] at he
  ordered a b hab := by simp [Before, position?, empty] at hab

theorem Recorded.follows {history : List α} (hr : Recorded history s) (hf : Follows s t use)
    (hs : s.Indexed) (ht : t.Indexed) (bounded : 0 < t.recency.capacity) :
    Recorded (history ++ use.toList) t := by
  have hused : ∀ k e, t.entries[k]? = some e → use ≠ some k → k ∈ history := fun k e he hk =>
    let ⟨f, hf, _⟩ := hf.kept k e hk he
    hr.used k f hf
  constructor
  · intro k e he
    rw [List.mem_append]
    by_cases hk : use = some k
    · exact .inr (by simp [hk])
    · exact .inl (hused k e he hk)
  · intro a b hab
    obtain ⟨e, he⟩ := stored_of_before_left hab
    obtain ⟨f, hf'⟩ := stored_of_before_right hab
    rcases (hf.before_iff hs ht bounded he hf').mp hab with ⟨hub, hne⟩ | ⟨hua, hub, hbefore⟩
    · -- `b` was used just now, and `a` at some time before
      rw [hub]
      have hua : use ≠ some a := fun hua => hne (Option.some.inj (hua.symm.trans hub))
      exact lastUsedBefore_use (hused a e he hua) hne
    · refine (hr.ordered a b hbefore).append ?_
      simpa using fun h => hua h

/-! ## One deed -/

variable [Std.LawfulEqOrd α]

theorem follows_touch (h : s.Indexed) (key : α) : Follows s (s.touch key) (some key) where
  kept k e hk he := by
    have hne : k ≠ key := ne_of_unused hk
    rw [getElem?_touch_of_ne hne] at he
    exact ⟨e, he, rfl⟩
  last k e p hk he hp := by
    cases hk
    by_cases hcap : s.recency.capacity = 0
    · rw [touch_of_unbounded hcap] at he
      have := (h.ranked.placed_iff key e he).mp (by simp [hp])
      omega
    · cases hs : s.entries[key]? with
      | none =>
        rw [touch_of_absent hs, hs] at he
        cases he
      | some f =>
        rw [touch_of_stored (by omega) hs] at he
        simp only [Std.ExtTreeMap.getElem?_insert_self, Option.some.injEq] at he
        subst he
        exact Nat.le_of_eq (Option.some.inj hp)

theorem follows_write (key : α) (value : β) (lifetime : Lifetime) (now : Instant) :
    Follows s (s.write key value lifetime now) (some key) where
  kept k e hk he := by
    have hne : k ≠ key := ne_of_unused hk
    rw [getElem?_write_of_ne hne] at he
    exact ⟨e, he, rfl⟩
  last k e p hk he hp := by
    cases hk
    rw [getElem?_write_self, Option.some.injEq] at he
    subst he
    simp only [written] at hp
    split at hp
    · exact Nat.le_of_eq (Option.some.inj hp)
    · cases hp

theorem follows_replaceValue (h : s.Indexed) (key : α) (value : β) :
    Follows s (s.replaceValue key value) (some key) := by
  cases he : s.entries[key]? with
  | none =>
    rw [replaceValue_of_absent he]
    have := follows_touch h key
    rwa [touch_of_absent he] at this
  | some e =>
    have hindexed : { s with entries := s.entries.insert key { e with value } }.Indexed :=
      h.replaceEntry he value
    rw [replaceValue_of_stored he]
    have htouch := follows_touch hindexed key
    refine ⟨fun k f hk hf => ?_, htouch.last⟩
    have hne : k ≠ key := ne_of_unused hk
    obtain ⟨g, hg, hpos⟩ := htouch.kept k f hk hf
    rw [getElem?_insert_of_ne hne] at hg
    exact ⟨g, hg, hpos⟩

theorem follows_remove (key : α) : Follows s (s.remove key).2 none := by
  apply follows_of_subset
  intro k e he
  by_cases hk : k = key
  · rw [hk, getElem?_remove_self] at he
    cases he
  · rwa [getElem?_remove_of_ne hk] at he

theorem follows_setLifetime (key : α) (lifetime : Lifetime) (now : Instant) :
    Follows s (s.setLifetime key lifetime now) none := by
  cases hl : s.live? key now with
  | none =>
    simp only [setLifetime, hl]
    exact follows_of_subset fun _ _ he => he
  | some f =>
    constructor
    · intro k e _ he
      simp only [setLifetime, hl] at he
      by_cases hk : k = key
      · subst hk
        simp only [Std.ExtTreeMap.getElem?_insert_self, Option.some.injEq] at he
        subst he
        exact ⟨f, (live?_eq_some_iff.mp hl).1, rfl⟩
      · rw [getElem?_insert_of_ne hk] at he
        exact ⟨e, he, rfl⟩
    · intro _ _ _ hk
      cases hk

/-- A deed moves the key that it uses to the end and no other. -/
theorem Consistent.follows_after (h : s.Consistent) (deed : Deed α β) :
    Follows s (s.after deed) deed.use? := by
  cases deed with
  | miss => exact follows_of_subset fun _ _ he => he
  | hit key =>
    have htouch := follows_touch (h.indexed.tallied s.tally.hit) key
    exact ⟨htouch.kept, htouch.last⟩
  | touch key => exact follows_touch h.indexed key
  | insert key value lifetime now =>
    exact (follows_write key value lifetime now).restrict (h.insert key value lifetime now).entry_of
  | remove key => exact follows_remove key
  | replace key value => exact follows_replaceValue h.indexed key value
  | extend key lifetime now => exact follows_setLifetime key lifetime now
  | purge order now limit =>
    apply follows_of_subset
    intro k e he
    rcases h.indexed.getElem?_purgeDue order now (some limit) k with hsame | ⟨hgone, -⟩
    · exact hsame.symm.trans he
    · cases hgone.symm.trans he
  | reset => exact follows_of_subset fun k e he => by simp [Store.after, Store.reset] at he

theorem Recorded.afterAll {history : List α} (hr : Recorded history s) (h : s.Consistent)
    (bounded : 0 < s.recency.capacity) (deeds : List (Deed α β)) :
    Recorded (history ++ deeds.filterMap Deed.use?) (s.afterAll deeds) := by
  induction deeds generalizing s history with
  | nil => simpa using hr
  | cons deed deeds ih =>
    have hcap : 0 < (s.after deed).recency.capacity := by rwa [capacity_after h deed]
    have hstep := hr.follows (h.follows_after deed) h.indexed (h.after deed).indexed hcap
    have hrest := ih hstep (h.after deed) hcap
    have huses : history ++ (deed :: deeds).filterMap Deed.use? =
        history ++ deed.use?.toList ++ deeds.filterMap Deed.use? := by
      cases hu : deed.use? <;> simp [hu]
    rwa [huses]

/-! ## One insert -/

/-- What inserting `key` into `s` evicts, where `history` are the uses up to and with this one. An
entry is live if it has not expired at `now`. -/
structure EvictsExactly (capacity : Nat) (history : List α) (s : Store α β) (key : α) (value : β)
    (lifetime : Lifetime) (now : Instant) (victims : List α) (t : Store α β) : Prop where
  /-- The new entry is itself live, except at the last moment that the clock can show. -/
  counted : now < .latest → ((s.write key value lifetime now).live? key now).isSome = true
  evicts_iff : victims ≠ [] ↔
    capacity < ((s.write key value lifetime now).liveEntries now).length
  length_le : victims.length ≤ 1
  evictions_eq : t.tally.evictions = s.tally.evictions + UInt64.ofNat victims.length
  victim_live : ∀ victim ∈ victims, (s.live? victim now).isSome = true
  victim_ne : ∀ victim ∈ victims, victim ≠ key
  victim_gone : ∀ victim ∈ victims, t.entries[victim]? = none
  longest_unused : ∀ victim ∈ victims, ∀ k, k ≠ victim →
    ((s.write key value lifetime now).live? k now).isSome = true → LastUsedBefore history victim k
  others_stay : ∀ k, k ∉ victims → t.live? k now = (s.write key value lifetime now).live? k now

theorem Consistent.evictsExactly {history : List α} (h : s.Consistent)
    (bounded : 0 < s.recency.capacity) (hr : Recorded history s) (key : α) (value : β)
    (lifetime : Lifetime) (now : Instant) :
    EvictsExactly s.recency.capacity (history ++ [key]) s key value lifetime now
      (s.insert key value lifetime now).1 (s.insert key value lifetime now).2 := by
  have hroom := h.insert key value lifetime now
  have hwritten := h.indexed.write key value lifetime now
  have hfollows : Follows s (s.write key value lifetime now) (some key) :=
    follows_write key value lifetime now
  have hcap : (s.write key value lifetime now).recency.capacity = s.recency.capacity :=
    capacity_write
  have hrec : Recorded (history ++ [key]) (s.write key value lifetime now) :=
    hr.follows hfollows h.indexed hwritten (by omega)
  generalize (s.insert key value lifetime now).1 = victims at hroom
  generalize (s.insert key value lifetime now).2 = t at hroom
  by_cases hmany : s.recency.capacity < ((s.write key value lifetime now).liveEntries now).length
  · obtain ⟨victim, rfl, hlive, hfirst⟩ := hroom.one_of_lt (by omega) (by omega)
    have hbefore : ∀ k, k ≠ victim →
        ((s.write key value lifetime now).live? k now).isSome = true →
          LastUsedBefore (history ++ [key]) victim k :=
      fun k hk hklive => hrec.ordered victim k (hfirst k hk hklive)
    -- some other entry is live too, and nothing is used after the key that is written now
    have hne : victim ≠ key := by
      obtain ⟨k, hk, hklive⟩ := exists_live_ne
        (show 1 < ((s.write key value lifetime now).liveEntries now).length by omega) victim
      rintro rfl
      exact not_lastUsedBefore_use (hbefore k hk hklive)
    refine ⟨fun hnow => by rw [live?_write_self hnow]; rfl, by simp [hmany], by simp, ?_, ?_, ?_,
      hroom.victim_gone, ?_, hroom.live_eq⟩
    · rw [hroom.evictions_eq, tally_write]
    · intro k hk
      rw [List.mem_singleton.mp hk]
      rwa [live?, getElem?_write_of_ne hne] at hlive
    · intro k hk
      rwa [List.mem_singleton.mp hk]
    · intro k hk
      rw [List.mem_singleton.mp hk]
      exact hbefore
  · have hnone := hroom.none_of_le (.inr (by omega))
    subst hnone
    refine ⟨fun hnow => by rw [live?_write_self hnow]; rfl, by simp [hmany], by simp, ?_, by simp,
      by simp, by simp, by simp, hroom.live_eq⟩
    rw [hroom.evictions_eq, tally_write]

end Store

/-! ## Runs -/

namespace Cache

variable {α β : Type} [Ord α] [Std.TransOrd α]

/-- The keys that a run uses, one after the other. -/
def uses (c : Cache α β) (run : List (Section α β × Instant)) : List α :=
  ((c.effects run).flatMap Effect.deeds).filterMap Deed.use?

variable [Std.LawfulEqOrd α]

/-- While a run that is calm throughout leaves the cache open, its uses account for the order of
use. -/
theorem recorded_of_calm {capacity : Nat} (bounded : 0 < capacity) (batch : Nat)
    {run : List (Section α β × Instant)}
    (hcalm : CalmThroughout ((empty capacity batch : Cache α β).effects run))
    (hopen : ((empty capacity batch : Cache α β).enactAll run).closed = false) :
    Store.Recorded ((empty capacity batch : Cache α β).uses run)
      ((empty capacity batch : Cache α β).enactAll run).settled := by
  obtain ⟨hsettled, -⟩ := settled_enactAll (consistent_empty capacity batch)
    (waiting_of_untouched rfl []) hcalm hopen
  have hempty : (empty capacity batch : Cache α β).settled = .empty capacity :=
    settled_of_untouched rfl
  rw [hsettled, hempty]
  exact (Store.recorded_empty capacity).afterAll (Store.consistent_empty capacity) bounded _

/-- In a calm run of sections in any order, whatever the clock shows, every insert that any section
does evicts exactly what it must: nothing while the live entries fit, and otherwise the one live
entry whose last use is the earliest in the history. -/
theorem evictsExactly_of_insert {capacity : Nat} (bounded : 0 < capacity) (batch : Nat)
    {run : List (Section α β × Instant)} {sec : Section α β} {moment now : Instant}
    (hcalm : Calm ((empty capacity batch).effects (run ++ [(sec, moment)])))
    {earlier later : List (Deed α β)} {key : α} {value : β} {lifetime : Lifetime}
    (hinsert : sec.effect ((empty capacity batch).enactAll run) moment =
      .write (earlier ++ .insert key value lifetime now :: later)) :
    let c := (empty capacity batch : Cache α β).enactAll run
    let s := c.settled.afterAll earlier
    let history :=
      (empty capacity batch : Cache α β).uses run ++ earlier.filterMap Deed.use? ++ [key]
    Store.EvictsExactly capacity history s key value lifetime now
        (s.insert key value lifetime now).1 (s.insert key value lifetime now).2 ∧
      (c.enact sec moment).store = (s.insert key value lifetime now).2.afterAll later := by
  intro c s history
  have hempty : (empty capacity batch : Cache α β).Consistent := consistent_empty capacity batch
  have hc : c.settled.Consistent := (hempty.enactAll run).settled
  have hcap : c.settled.recency.capacity = capacity :=
    capacity_settled.trans (capacity_enactAll hempty run)
  -- sections of a closed cache have no deeds
  have hopen : c.closed = false := by
    rw [← Bool.not_eq_true]
    intro hclosed
    have hnil := deeds_eq_nil_of_closed hclosed hinsert
    simp at hnil
  rw [effects_append, effects_cons, effects_nil, hinsert] at hcalm
  have hrecorded := recorded_of_calm bounded batch (hcalm.throughout rfl) hopen
  have hs : s.Consistent := hc.afterAll earlier
  have hscap : s.recency.capacity = capacity := (Store.capacity_afterAll hc earlier).trans hcap
  constructor
  · have hbounded : 0 < c.settled.recency.capacity := hcap ▸ bounded
    have hexact := hs.evictsExactly (hscap ▸ bounded) (hrecorded.afterAll hc hbounded earlier) key
      value lifetime now
    rwa [hscap] at hexact
  · rw [enact_eq_after, hinsert, store_after_write hopen, Store.afterAll_append]
    rfl

/-- The hit on the first key keeps it; the second key makes room for the third. -/
theorem evictsExactly_after_hit :
    let run : List (Section Nat Nat × Instant) :=
      [(.perform (.setAll [(1, some 10), (2, some 20)] .forever), .clamp 0),
        (.perform (.get 1), .clamp 1)]
    let sec : Section Nat Nat := .perform (.setAll [(7, none), (3, some 30), (4, none)] .forever)
    let c := (empty 2 1 : Cache Nat Nat).enactAll run
    let s := c.settled.afterAll [.remove 7]
    let done := s.insert 3 30 .forever (.clamp 2)
    Calm ((empty 2 1 : Cache Nat Nat).effects (run ++ [(sec, .clamp 2)])) ∧
      sec.effect c (.clamp 2) =
        .write ([.remove 7] ++ .insert 3 30 .forever (.clamp 2) :: [.remove 4]) ∧
      done.1 = [2] ∧
      Store.EvictsExactly 2 [1, 2, 1, 3] s 3 30 .forever (.clamp 2) done.1 done.2 := by
  intro run sec c s done
  have hcalm : Calm ((empty 2 1 : Cache Nat Nat).effects (run ++ [(sec, .clamp 2)])) :=
    calm_of_length_le (by cbv)
  have hinsert : sec.effect c (.clamp 2) =
      .write ([.remove 7] ++ .insert 3 30 .forever (.clamp 2) :: [.remove 4]) := by rfl
  refine ⟨hcalm, hinsert, ?_, (evictsExactly_of_insert (by decide) 1 hcalm hinsert).1⟩
  clear hcalm hinsert
  subst done s c sec run
  cbv

end Cache

end ExpiringCache
