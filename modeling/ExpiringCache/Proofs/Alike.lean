import ExpiringCache.Proofs.Contents
import ExpiringCache.Proofs.Uses

/-!
# Stores that cannot be told apart

Two stores read alike at a moment if they show the same live rows and have counted the same hits,
misses and evictions. They are alike if they have also used their live keys in the same order. What
has expired may be stored in one of them and not in the other.

1. **Being alike** (`Store.ReadAlike`, `Store.Alike`): stores that are alike stay so as time goes
   on.
2. **One deed** (`Alike.after`): the same deed done to both keeps them alike, and an insert has the
   same victims in both (`Alike.insert_fst`).
3. **Several deeds** (`Store.evicts`): the same deeds keep them alike, insert for insert with the
   same victims (`Alike.afterAll`).
4. **Purging** (`Consistent.alike_purge`): a purge of one of them alone makes no difference.
-/

namespace ExpiringCache

namespace Tally

/-- The counters with the expired entries left out. -/
def unexpired (t : Tally) : Tally := { t with expired := 0 }

variable {t u : Tally}

@[simp] theorem unexpired_expire (t : Tally) (n : Nat) : (t.expire n).unexpired = t.unexpired := rfl

@[simp] theorem unexpired_hit (t : Tally) : t.hit.unexpired = t.unexpired.hit := rfl

@[simp] theorem unexpired_miss (t : Tally) : t.miss.unexpired = t.unexpired.miss := rfl

@[simp] theorem unexpired_evict (t : Tally) (n : Nat) :
    (t.evict n).unexpired = t.unexpired.evict n := rfl

end Tally

namespace Store

variable {α β : Type} [Ord α] [Std.TransOrd α]

/-- Nobody who only reads tells the two stores apart, at `now` or later. -/
structure ReadAlike (now : Instant) (s t : Store α β) : Prop where
  capacity_eq : s.recency.capacity = t.recency.capacity
  live?_eq : ∀ k, s.contents.live? k now = t.contents.live? k now
  tally_eq : s.tally.unexpired = t.tally.unexpired

/-- Nothing that is live at `now`, or later, tells the two stores apart. -/
structure Alike (now : Instant) (s t : Store α β) : Prop extends ReadAlike now s t where
  before_iff : ∀ a b, (s.live? a now).isSome = true → (s.live? b now).isSome = true →
    (s.Before a b ↔ t.Before a b)

variable {s s' t t' u : Store α β} {now later : Instant} {key k : α} {use : Option α}
  {deed : Deed α β}

theorem Alike.refl (now : Instant) (s : Store α β) : Alike now s s :=
  ⟨⟨rfl, fun _ => rfl, rfl⟩, fun _ _ _ _ => Iff.rfl⟩

variable [Std.LawfulEqOrd α]

/-! ## Being alike -/

omit [Std.LawfulEqOrd α] in
theorem ReadAlike.trans (h : ReadAlike now s t) (h' : ReadAlike now t u) : ReadAlike now s u where
  capacity_eq := h.capacity_eq.trans h'.capacity_eq
  live?_eq k := (h.live?_eq k).trans (h'.live?_eq k)
  tally_eq := h.tally_eq.trans h'.tally_eq

theorem ReadAlike.isSome_eq (h : ReadAlike now s t) (k : α) :
    (s.live? k now).isSome = (t.live? k now).isSome := by
  have hlive := congrArg Option.isSome (h.live?_eq k)
  rwa [live?_contents, live?_contents, Option.isSome_map, Option.isSome_map] at hlive

/-- Two entries that answer for a key differ in their positions only. -/
theorem ReadAlike.live?_cases (h : ReadAlike now s t) (k : α) :
    (s.live? k now = none ∧ t.live? k now = none) ∨
      ∃ e f, s.live? k now = some e ∧ t.live? k now = some f ∧ e.content = f.content := by
  have hlive := h.live?_eq k
  rw [live?_contents, live?_contents] at hlive
  cases hs : s.live? k now <;> cases ht : t.live? k now <;> simp_all

theorem Alike.trans (h : Alike now s t) (h' : Alike now t u) : Alike now s u where
  toReadAlike := h.toReadAlike.trans h'.toReadAlike
  before_iff a b ha hb := by
    rw [h.before_iff a b ha hb]
    rw [h.isSome_eq] at ha hb
    exact h'.before_iff a b ha hb

/-- The rows that are live later are live now. -/
theorem live?_later (hle : now ≤ later) (s : Store α β) (k : α) :
    s.contents.live? k later = (s.contents.live? k now).filter (Rows.isLive later) := by
  rw [Rows.live?, Rows.live?, Option.filter_filter, getElem?_contents]
  cases s.entries[k]? with
  | none => rfl
  | some e =>
    by_cases hlater : e.isLiveAt later = true
    · simp [Option.filter, isLive_content, hlater, Entry.isLiveAt_of_le hle hlater]
    · simp [Option.filter, isLive_content, hlater]

omit [Std.LawfulEqOrd α] in
/-- A key that is live later is live now. -/
theorem isSome_live?_of_le {k : α} (hle : now ≤ later) (hk : (s.live? k later).isSome = true) :
    (s.live? k now).isSome = true := by
  obtain ⟨e, he⟩ := Option.isSome_iff_exists.mp hk
  obtain ⟨hstored, hlive⟩ := live?_eq_some_iff.mp he
  rw [live?_eq_some_iff.mpr ⟨hstored, Entry.isLiveAt_of_le hle hlive⟩]
  rfl

omit [Std.LawfulEqOrd α] in
theorem live?_eq_none_of_le {k : α} (hle : now ≤ later) (hk : s.live? k now = none) :
    s.live? k later = none := by
  rw [← Option.not_isSome_iff_eq_none] at hk ⊢
  exact mt (isSome_live?_of_le hle) hk

theorem ReadAlike.mono (h : ReadAlike now s t) (hle : now ≤ later) : ReadAlike later s t :=
  ⟨h.capacity_eq, fun k => by rw [live?_later hle, live?_later hle, h.live?_eq], h.tally_eq⟩

/-- Stores that are alike stay so. -/
theorem Alike.mono (h : Alike now s t) (hle : now ≤ later) : Alike later s t :=
  ⟨h.toReadAlike.mono hle, fun a b ha hb =>
    h.before_iff a b (isSome_live?_of_le hle ha) (isSome_live?_of_le hle hb)⟩

/-- The same rows are live. -/
theorem ReadAlike.live_eq (h : ReadAlike now s t) : s.contents.live now = t.contents.live now := by
  have hfilter : (s.contents.filter fun _ => Rows.isLive now) =
      t.contents.filter fun _ => Rows.isLive now := by
    apply Std.ExtTreeMap.ext_getElem?
    intro k
    rw [Std.ExtTreeMap.getElem?_filter', Std.ExtTreeMap.getElem?_filter']
    exact h.live?_eq k
  have hlist := congrArg Std.ExtTreeMap.toList hfilter
  rwa [Std.ExtTreeMap.toList_filter, Std.ExtTreeMap.toList_filter] at hlist

theorem ReadAlike.length_eq (h : ReadAlike now s t) :
    (s.liveEntries now).length = (t.liveEntries now).length := by
  have hlength := congrArg List.length h.live_eq
  rwa [live_contents, live_contents, List.length_map, List.length_map] at hlength

omit [Std.LawfulEqOrd α] in
theorem not_before_both {a b : α} (hab : s.Before a b) (hba : s.Before b a) : False := by
  obtain ⟨p, q, hp, hq, hpq⟩ := hab
  obtain ⟨q', p', hq', hp', hqp⟩ := hba
  rw [hp, Option.some.injEq] at hp'
  rw [hq, Option.some.injEq] at hq'
  omega

omit [Std.LawfulEqOrd α] in
theorem stored_of_live (h : (s.live? k now).isSome = true) : ∃ e, s.entries[k]? = some e := by
  obtain ⟨e, he⟩ := Option.isSome_iff_exists.mp h
  exact ⟨e, (live?_eq_some_iff.mp he).1⟩

omit [Std.LawfulEqOrd α] in
theorem Indexed.not_before_of_unbounded (h : s.Indexed) (hcap : s.recency.capacity = 0)
    (a b : α) : ¬ s.Before a b := by
  rintro ⟨p, q, hp, -, -⟩
  obtain ⟨e, he, hpos⟩ := Option.bind_eq_some_iff.mp hp
  have := (h.ranked.placed_iff a e he).mp (by simp [hpos])
  omega

/-- If the same key is used in both stores, the same rows are live afterwards and every other live
key was live before, the stores stay alike. -/
theorem Alike.of_follows (h : Alike now s t) (hs : s.Indexed) (hs' : s'.Indexed)
    (ht : t.Indexed) (ht' : t'.Indexed) (hcap : s'.recency.capacity = t'.recency.capacity)
    (hfs : Follows s s' use) (hft : Follows t t' use)
    (hlive : ∀ k, s'.contents.live? k now = t'.contents.live? k now)
    (hkept : ∀ k, use ≠ some k → (s'.live? k now).isSome = true → (s.live? k now).isSome = true)
    (htally : s'.tally.unexpired = t'.tally.unexpired) : Alike now s' t' := by
  refine ⟨⟨hcap, hlive, htally⟩, fun a b ha hb => ?_⟩
  by_cases hbounded : s'.recency.capacity = 0
  · -- no order is kept
    exact iff_of_false (hs'.not_before_of_unbounded hbounded a b)
      (ht'.not_before_of_unbounded (hcap ▸ hbounded) a b)
  · have hother : ∀ k, (s'.live? k now).isSome = true → ∃ e, t'.entries[k]? = some e := by
      intro k hk
      have hsome := congrArg Option.isSome (hlive k)
      rw [live?_contents, live?_contents, Option.isSome_map, Option.isSome_map, hk] at hsome
      exact stored_of_live hsome.symm
    obtain ⟨e, he⟩ := stored_of_live ha
    obtain ⟨f, hf⟩ := stored_of_live hb
    obtain ⟨e', he'⟩ := hother a ha
    obtain ⟨f', hf'⟩ := hother b hb
    rw [hfs.before_iff hs hs' (by omega) he hf, hft.before_iff ht ht' (by omega) he' hf']
    -- the key used just now comes last in both stores, and others stand as before
    by_cases hua : use = some a
    · simp [hua]
    · by_cases hub : use = some b
      · simp [hub]
      · simp [hua, hub, h.before_iff a b (hkept a hua ha) (hkept b hub hb)]

/-! ## Inserting -/

theorem Alike.write (h : Alike now s t) (hs : s.Indexed) (ht : t.Indexed) (key : α) (value : β)
    (lifetime : Lifetime) :
    Alike now (s.write key value lifetime now) (t.write key value lifetime now) := by
  refine h.of_follows hs (hs.write ..) ht (ht.write ..) ?_
    (follows_write key value lifetime now) (follows_write key value lifetime now) ?_ ?_ ?_
  · rw [capacity_write, capacity_write, h.capacity_eq]
  · intro k
    rw [contents_write, contents_write]
    by_cases hk : k = key
    · rw [hk, Rows.live?_insert_self, Rows.live?_insert_self]
    · rw [Rows.live?_insert_of_ne hk, Rows.live?_insert_of_ne hk, h.live?_eq]
  · intro k hk hlivek
    have hne : k ≠ key := ne_of_unused hk
    rwa [live?, getElem?_write_of_ne hne] at hlivek
  · rw [tally_write, tally_write, h.tally_eq]

/-- An insert has the same victims in both stores: as many rows are live, and among them the same
one is the longest unused. -/
theorem Alike.insert_fst (h : Alike now s t) (hs : s.Consistent) (ht : t.Consistent) (key : α)
    (value : β) (lifetime : Lifetime) :
    (s.insert key value lifetime now).1 = (t.insert key value lifetime now).1 := by
  have hw := h.write hs.indexed ht.indexed key value lifetime
  have hsroom := hs.insert key value lifetime now
  have htroom := ht.insert key value lifetime now
  have hlength := hw.length_eq
  have hcap := hw.capacity_eq
  by_cases hfew : (s.write key value lifetime now).recency.capacity = 0 ∨
      ((s.write key value lifetime now).liveEntries now).length ≤
        (s.write key value lifetime now).recency.capacity
  · rw [hsroom.none_of_le hfew, htroom.none_of_le (by omega)]
  · obtain ⟨v, hv, hvlive, hvfirst⟩ := hsroom.one_of_lt (by omega) (by omega)
    obtain ⟨w, hw', hwlive, hwfirst⟩ := htroom.one_of_lt (by omega) (by omega)
    rw [hv, hw']
    -- of two different victims each would come before the other
    by_contra hne
    have hvw : v ≠ w := fun hvw => hne (by rw [hvw])
    rw [← hw.isSome_eq] at hwlive
    have hbefore := hvfirst w hvw.symm hwlive
    have hafter := hwfirst v hvw (by rwa [← hw.isSome_eq])
    rw [← hw.before_iff w v hwlive hvlive] at hafter
    exact not_before_both hbefore hafter

omit [Std.LawfulEqOrd α] in
theorem MadeRoom.unexpired_tally {victims : List α} (h : MadeRoom s now victims t) :
    t.tally.unexpired = s.tally.unexpired.evict victims.length :=
  Tally.ext h.hits_eq h.misses_eq h.evictions_eq rfl

/-- Making room keeps two stores alike if it has the same victims in both. -/
theorem Alike.live?_of_madeRoom (h : Alike now s t) {victims : List α}
    (hs : MadeRoom s now victims s') (ht : MadeRoom t now victims t') (k : α) :
    s'.contents.live? k now = t'.contents.live? k now := by
  rw [live?_contents, live?_contents]
  by_cases hk : k ∈ victims
  · rw [live?, live?, hs.victim_gone k hk, ht.victim_gone k hk]
  · rw [hs.live_eq k hk, ht.live_eq k hk, ← live?_contents, ← live?_contents, h.live?_eq]

/-! ## One deed -/

theorem live?_replaceValue_self (s : Store α β) (key : α) (value : β) (now : Instant) :
    (s.replaceValue key value).contents.live? key now =
      (s.contents.live? key now).map fun row => (value, row.2) := by
  cases he : s.entries[key]? with
  | none =>
    rw [replaceValue_of_absent he, live?_contents, live?, he]
    rfl
  | some e =>
    rw [contents_replaceValue he, Rows.live?_insert_self, Rows.live?, getElem?_contents, he]
    -- whether a row is live has nothing to do with its value
    have hsame : Rows.isLive now (value, e.deadline) = Rows.isLive now e.content := rfl
    cases Rows.isLive now e.content <;> simp [Option.filter, hsame, Entry.content]

theorem live?_replaceValue_of_ne (hk : k ≠ key) (value : β) :
    (s.replaceValue key value).contents.live? k now = s.contents.live? k now := by
  cases he : s.entries[key]? with
  | none => rw [replaceValue_of_absent he]
  | some e => rw [contents_replaceValue he, Rows.live?_insert_of_ne hk]

theorem live?_setLifetime_self (s : Store α β) (key : α) (lifetime : Lifetime) (now : Instant) :
    (s.setLifetime key lifetime now).contents.live? key now =
      (s.contents.live? key now).bind fun row =>
        (some (row.1, lifetime.deadline now)).filter (Rows.isLive now) := by
  cases hl : s.live? key now with
  | none =>
    simp only [setLifetime, hl]
    rw [live?_contents, hl]
    rfl
  | some e =>
    rw [contents_setLifetime hl, Rows.live?_insert_self, live?_contents, hl]
    rfl

theorem live?_setLifetime_of_ne (hk : k ≠ key) (lifetime : Lifetime) :
    (s.setLifetime key lifetime now).contents.live? k now = s.contents.live? k now := by
  cases hl : s.live? key now with
  | none => simp only [setLifetime, hl]
  | some e => rw [contents_setLifetime hl, Rows.live?_insert_of_ne hk]

theorem live?_remove_self (s : Store α β) (key : α) (now : Instant) :
    (s.remove key).2.contents.live? key now = none := by
  rw [contents_remove, Rows.live?_erase_self]

theorem live?_remove_of_ne (hk : k ≠ key) :
    (s.remove key).2.contents.live? k now = s.contents.live? k now := by
  rw [contents_remove, Rows.live?_erase_of_ne hk]

/-- The same deed leaves the same rows live. -/
theorem Alike.live?_after (h : Alike now s t) (hs : s.Consistent) (ht : t.Consistent)
    (hnow : deed.HappensAt now) (k : α) :
    (s.after deed).contents.live? k now = (t.after deed).contents.live? k now := by
  cases deed with
  | miss => exact h.live?_eq k
  | hit key =>
    simp only [Store.after, contents_touch]
    exact h.live?_eq k
  | touch key => rw [Store.after, Store.after, contents_touch, contents_touch, h.live?_eq]
  | insert key value lifetime moment =>
    obtain rfl : moment = now := hnow
    have htroom := ht.insert key value lifetime moment
    rw [← h.insert_fst hs ht] at htroom
    exact (h.write hs.indexed ht.indexed key value lifetime).live?_of_madeRoom
      (hs.insert key value lifetime moment) htroom k
  | remove key =>
    simp only [Store.after]
    by_cases hk : k = key
    · rw [hk, live?_remove_self, live?_remove_self]
    · rw [live?_remove_of_ne hk, live?_remove_of_ne hk, h.live?_eq]
  | replace key value =>
    simp only [Store.after]
    by_cases hk : k = key
    · rw [hk, live?_replaceValue_self, live?_replaceValue_self, h.live?_eq]
    · rw [live?_replaceValue_of_ne hk, live?_replaceValue_of_ne hk, h.live?_eq]
  | extend key lifetime moment =>
    obtain rfl : moment = now := hnow
    simp only [Store.after]
    by_cases hk : k = key
    · rw [hk, live?_setLifetime_self, live?_setLifetime_self, h.live?_eq]
    · rw [live?_setLifetime_of_ne hk, live?_setLifetime_of_ne hk, h.live?_eq]
  | purge order moment limit =>
    obtain rfl : moment = now := hnow
    rw [Store.after, Store.after, live?_contents, live?_contents,
      hs.indexed.live?_purgeDue order (Instant.le_refl moment),
      ht.indexed.live?_purgeDue order (Instant.le_refl moment), ← live?_contents,
      ← live?_contents, h.live?_eq]
  | reset => rfl

/-- Only the key that a deed uses may come to life by it. -/
theorem Consistent.live_of_after (h : s.Consistent) (hnow : deed.HappensAt now)
    (hk : deed.use? ≠ some k) (hlive : ((s.after deed).live? k now).isSome = true) :
    (s.live? k now).isSome = true := by
  have hrows : ((s.after deed).contents.live? k now).isSome = true := by
    rwa [live?_contents, Option.isSome_map]
  suffices hsame : (s.contents.live? k now).isSome = true by
    rwa [live?_contents, Option.isSome_map] at hsame
  cases deed with
  | miss => exact hrows
  | hit key | touch key =>
    simp only [Store.after, contents_touch] at hrows
    exact hrows
  | insert key value lifetime moment =>
    obtain ⟨e, he⟩ := Option.isSome_iff_exists.mp hlive
    obtain ⟨hstored, hl⟩ := live?_eq_some_iff.mp he
    have hwritten := (h.insert key value lifetime moment).entry_of k e hstored
    rw [getElem?_write_of_ne (ne_of_unused hk)] at hwritten
    rw [live?_contents, Option.isSome_map, live?_eq_some_iff.mpr ⟨hwritten, hl⟩]
    rfl
  | remove key =>
    by_cases hkey : k = key
    · rw [hkey, Store.after, live?_remove_self] at hrows
      cases hrows
    · rwa [Store.after, live?_remove_of_ne hkey] at hrows
  | replace key value => rwa [Store.after, live?_replaceValue_of_ne (ne_of_unused hk)] at hrows
  | extend key lifetime moment =>
    obtain rfl : moment = now := hnow
    by_cases hkey : k = key
    · -- only what is live can be extended
      rw [hkey, Store.after, live?_setLifetime_self] at hrows
      rw [hkey]
      cases hrow : s.contents.live? key moment with
      | none => simp [hrow] at hrows
      | some row => rfl
    · rwa [Store.after, live?_setLifetime_of_ne hkey] at hrows
  | purge order moment limit =>
    obtain rfl : moment = now := hnow
    rwa [Store.after, live?_contents, h.indexed.live?_purgeDue order (Instant.le_refl moment),
      ← live?_contents] at hrows
  | reset => simp [Store.after, contents, Store.reset, Rows.live?] at hrows

theorem Alike.tally_after (h : Alike now s t) (hs : s.Consistent) (ht : t.Consistent)
    (hnow : deed.HappensAt now) :
    (s.after deed).tally.unexpired = (t.after deed).tally.unexpired := by
  cases deed with
  | miss => simp [Store.after, h.tally_eq]
  | hit key => simp [Store.after, h.tally_eq]
  | insert key value lifetime moment =>
    obtain rfl : moment = now := hnow
    have hsroom := hs.insert key value lifetime moment
    have htroom := ht.insert key value lifetime moment
    rw [Store.after, Store.after, hsroom.unexpired_tally, htroom.unexpired_tally,
      h.insert_fst hs ht, tally_write, tally_write, h.tally_eq]
  | purge order moment limit =>
    rw [Store.after, Store.after, hs.indexed.tally_purgeDue, ht.indexed.tally_purgeDue,
      Tally.unexpired_expire, Tally.unexpired_expire, h.tally_eq]
  | _ => simp [Store.after, h.tally_eq, Store.reset]

/-- The same deed, done to both, keeps two stores alike. -/
theorem Alike.after (h : Alike now s t) (hs : s.Consistent) (ht : t.Consistent)
    (hnow : deed.HappensAt now) : Alike now (s.after deed) (t.after deed) := by
  refine h.of_follows hs.indexed (hs.after deed).indexed ht.indexed (ht.after deed).indexed ?_
    (hs.follows_after deed) (ht.follows_after deed) (h.live?_after hs ht hnow) ?_
    (h.tally_after hs ht hnow)
  · rw [capacity_after hs, capacity_after ht, h.capacity_eq]
  · exact fun k hk hlive => hs.live_of_after hnow hk hlive

/-! ## Several deeds -/

/-- What a deed evicts, beside the key for which it makes room. -/
def evictsOf (s : Store α β) : Deed α β → List (α × List α)
  | .insert key value lifetime now => [(key, (s.insert key value lifetime now).1)]
  | .miss | .hit _ | .touch _ | .remove _ | .replace _ _ | .extend _ _ _ | .purge _ _ _ |
    .reset => []

/-- The inserts among the deeds, each with the keys that it evicts. -/
def evicts : Store α β → List (Deed α β) → List (α × List α)
  | _, [] => []
  | s, deed :: deeds => s.evictsOf deed ++ evicts (s.after deed) deeds

theorem Alike.evictsOf_eq (h : Alike now s t) (hs : s.Consistent) (ht : t.Consistent)
    (hnow : deed.HappensAt now) : s.evictsOf deed = t.evictsOf deed := by
  cases deed with
  | insert key value lifetime moment =>
    obtain rfl : moment = now := hnow
    rw [evictsOf, evictsOf, h.insert_fst hs ht]
  | _ => rfl

/-- The same deeds keep two stores alike, and evict the same keys at the same inserts. -/
theorem Alike.afterAll (h : Alike now s t) (hs : s.Consistent) (ht : t.Consistent)
    {deeds : List (Deed α β)} (hnow : ∀ deed ∈ deeds, deed.HappensAt now) :
    Alike now (s.afterAll deeds) (t.afterAll deeds) ∧ s.evicts deeds = t.evicts deeds := by
  induction deeds generalizing s t with
  | nil => exact ⟨h, rfl⟩
  | cons deed deeds ih =>
    have hdeed := hnow deed (by simp)
    obtain ⟨halike, hevicts⟩ := ih (h.after hs ht hdeed) (hs.after deed) (ht.after deed)
      fun d hd => hnow d (by simp [hd])
    refine ⟨halike, ?_⟩
    rw [evicts, evicts, h.evictsOf_eq hs ht hdeed, hevicts]

/-! ## Purging -/

/-- A purge shows nowhere. -/
theorem Consistent.alike_purge (h : s.Consistent) (order : Arrangement α) {earlier : Instant}
    (hle : earlier ≤ now) (limit : Nat) : Alike now s (s.after (.purge order earlier limit)) := by
  refine (Alike.refl now s).of_follows h.indexed h.indexed h.indexed (h.after _).indexed
    (capacity_after h _).symm (follows_of_subset fun _ _ he => he)
    (h.follows_after (.purge order earlier limit)) (fun k => ?_) (fun _ _ hlive => hlive) ?_
  · rw [Store.after, live?_contents, live?_contents, h.indexed.live?_purgeDue order hle]
  · rw [Store.after, h.indexed.tally_purgeDue, Tally.unexpired_expire]

end Store

end ExpiringCache
