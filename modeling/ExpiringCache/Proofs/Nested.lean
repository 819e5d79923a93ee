import ExpiringCache.Proofs.Alike

/-!
# Stores of which one holds what the other holds

Of two stores the second may be the larger one. It holds everything that is live in the first, with
the same row, and the two have used the keys that are live in both in the same order. What is live
in the second alone is no more than its capacity exceeds that of the first, so that the second makes
room only when the first has to as well.

1. **Being nested** (`Store.Included`, `Store.Nested`): nested stores stay so as time goes on.
2. **Editing** (`Store.Edits`): some deeds change the row of one key and no other. Stores stay
   nested if both are edited alike (`Nested.edit_both`), and if the second alone is edited at a key
   that is not live in the first (`Nested.edit_right`).
3. **Inserting** (`Nested.insert`): whatever live key the second store evicts, the first evicts too
   or does not hold.
4. **Deeds** (`Nested.after`): the same deed, done to both, keeps stores nested.
-/

namespace ExpiringCache

/-- The key whose row a deed edits, and how: deeds that insert, purge or reset do more than that. -/
def Deed.edit? {α β : Type} (now : Instant) :
    Deed α β → Option (α × (β × Option Instant → Option (β × Option Instant)))
  | .hit key | .touch key => some (key, some)
  | .remove key => some (key, fun _ => none)
  | .replace key value => some (key, fun row => some (value, row.2))
  | .extend key lifetime _ =>
    some (key, fun row => (some (row.1, lifetime.deadline now)).filter (Rows.isLive now))
  | .miss | .insert _ _ _ _ | .purge _ _ _ | .reset => none

namespace Store

variable {α β : Type} [Ord α] [Std.TransOrd α]

/-- What is live in `s` at `now` is live in `t`, with the same row. -/
def Included (now : Instant) (s t : Store α β) : Prop :=
  ∀ k row, s.contents.live? k now = some row → t.contents.live? k now = some row

/-- The key is live in `t` alone. -/
def Surplus (now : Instant) (s t : Store α β) (k : α) : Prop :=
  s.contents.live? k now = none ∧ (t.contents.live? k now).isSome = true

/-- `t` holds what `s` holds, and will go on to. Where it has no bound, nothing else is needed. -/
structure Nested (now : Instant) (s t : Store α β) : Prop where
  bounded : 0 < s.recency.capacity
  included : Included now s t
  before_iff : 0 < t.recency.capacity → ∀ a b, (s.live? a now).isSome = true →
    (s.live? b now).isSome = true → (s.Before a b ↔ t.Before a b)
  room : 0 < t.recency.capacity → ∀ keys : List α, keys.Nodup →
    (∀ k ∈ keys, Surplus now s t k) → keys.length + s.recency.capacity ≤ t.recency.capacity

variable {s s' t t' : Store α β} {now later : Instant} {key k : α}

/-- Stores without entries are nested if the second may grow as large as the first. -/
theorem nested_of_no_entries (hs : s.entries = ∅) (ht : t.entries = ∅)
    (hbounded : 0 < s.recency.capacity)
    (hle : s.recency.capacity ≤ t.recency.capacity ∨ t.recency.capacity = 0) (now : Instant) :
    Nested now s t where
  bounded := hbounded
  included k row h := by simp [contents, hs, Rows.live?] at h
  before_iff _ a b h := by simp [live?, hs] at h
  room hpos keys _ hkeys := by
    have hnil : keys = [] := List.eq_nil_iff_forall_not_mem.mpr fun k hk => by
      have hsome := (hkeys k hk).2
      simp [contents, ht, Rows.live?] at hsome
    rw [hnil, List.length_nil]
    omega

variable [Std.LawfulEqOrd α]

/-! ## Being nested -/

theorem isSome_live?_contents (s : Store α β) (k : α) (now : Instant) :
    (s.contents.live? k now).isSome = (s.live? k now).isSome := by
  rw [live?_contents, Option.isSome_map]

theorem Included.isSome (h : Included now s t) (hk : (s.live? k now).isSome = true) :
    (t.live? k now).isSome = true := by
  rw [← isSome_live?_contents] at hk ⊢
  obtain ⟨row, hrow⟩ := Option.isSome_iff_exists.mp hk
  rw [h k row hrow]
  rfl

theorem Included.mono (h : Included now s t) (hle : now ≤ later) : Included later s t := by
  intro k row hrow
  rw [live?_later hle] at hrow ⊢
  obtain ⟨hnow, hlive⟩ := Option.filter_eq_some_iff.mp hrow
  exact Option.filter_eq_some_iff.mpr ⟨h k row hnow, hlive⟩

/-- What lives longer in the second store than in the first was never live in the first. -/
theorem Included.surplus_mono (h : Included now s t) (hle : now ≤ later)
    (hk : Surplus later s t k) : Surplus now s t k := by
  obtain ⟨hnone, hsome⟩ := hk
  obtain ⟨row, hrow⟩ := Option.isSome_iff_exists.mp hsome
  rw [live?_later hle] at hnone hrow
  obtain ⟨ht, hlive⟩ := Option.filter_eq_some_iff.mp hrow
  refine ⟨?_, by rw [ht]; rfl⟩
  cases hs : s.contents.live? k now with
  | none => rfl
  | some row' =>
    have hsame := h k row' hs
    rw [ht, Option.some.injEq] at hsame
    subst hsame
    simp [hs, Option.filter, hlive] at hnone

theorem Nested.mono (h : Nested now s t) (hle : now ≤ later) : Nested later s t where
  bounded := h.bounded
  included := h.included.mono hle
  before_iff hpos a b ha hb :=
    h.before_iff hpos a b (isSome_live?_of_le hle ha) (isSome_live?_of_le hle hb)
  room hpos keys hnodup hkeys :=
    h.room hpos keys hnodup fun k hk => h.included.surplus_mono hle (hkeys k hk)

omit [Std.LawfulEqOrd α] in
/-- The second store may grow as large as the first. -/
theorem Nested.capacity_le (h : Nested now s t) :
    s.recency.capacity ≤ t.recency.capacity ∨ t.recency.capacity = 0 := by
  by_cases hpos : 0 < t.recency.capacity
  · have hroom := h.room hpos [] List.nodup_nil nofun
    rw [List.length_nil] at hroom
    omega
  · omega

/-- What a step leaves is nested if each key that is still live in the first store was used in both
or in neither, and nothing has become live in the second alone. -/
theorem Nested.of_follows (h : Nested now s t) {use use' : Option α} (hs : s.Indexed)
    (hs' : s'.Indexed) (ht : t.Indexed) (ht' : t'.Indexed)
    (hcap : s'.recency.capacity = s.recency.capacity)
    (hcap' : t'.recency.capacity = t.recency.capacity) (hfs : Follows s s' use)
    (hft : Follows t t' use') (hincluded : Included now s' t')
    (huse : ∀ k, (s'.live? k now).isSome = true → (use = some k ↔ use' = some k))
    (hkept : ∀ k, use ≠ some k → (s'.live? k now).isSome = true → (s.live? k now).isSome = true)
    (hroom : 0 < t'.recency.capacity → ∀ keys : List α, keys.Nodup →
      (∀ k ∈ keys, Surplus now s' t' k) → keys.length + s'.recency.capacity ≤ t'.recency.capacity) :
    Nested now s' t' := by
  have hbounded : 0 < s'.recency.capacity := hcap ▸ h.bounded
  refine ⟨hbounded, hincluded, fun hpos a b ha hb => ?_, hroom⟩
  obtain ⟨e, he⟩ := stored_of_live ha
  obtain ⟨f, hf⟩ := stored_of_live hb
  obtain ⟨e', he'⟩ := stored_of_live (hincluded.isSome ha)
  obtain ⟨f', hf'⟩ := stored_of_live (hincluded.isSome hb)
  rw [hfs.before_iff hs hs' hbounded he hf, hft.before_iff ht ht' hpos he' hf']
  have hua := huse a ha
  have hub := huse b hb
  -- the key used just now comes last in both stores, and others stand as before
  by_cases ha' : use = some a
  · simp [ha', hua.mp ha']
  · have hna' : use' ≠ some a := fun hu => ha' (hua.mpr hu)
    by_cases hb' : use = some b
    · simp [hb', hub.mp hb']
    · have hnb' : use' ≠ some b := fun hu => hb' (hub.mpr hu)
      have hbefore := h.before_iff (hcap' ▸ hpos) a b (hkept a ha' ha) (hkept b hb' hb)
      simp [ha', hna', hb', hnb', hbefore]

/-- What shows nowhere takes nothing away. -/
theorem Nested.of_alike (h : Nested now s t) (hs : Alike now s s') (ht : Alike now t t') :
    Nested now s' t' where
  bounded := hs.capacity_eq ▸ h.bounded
  included k row hrow := by
    rw [← hs.live?_eq] at hrow
    rw [← ht.live?_eq]
    exact h.included k row hrow
  before_iff hpos a b ha hb := by
    rw [← hs.isSome_eq] at ha hb
    rw [← hs.before_iff a b ha hb,
      ← ht.before_iff a b (h.included.isSome ha) (h.included.isSome hb)]
    exact h.before_iff (ht.capacity_eq ▸ hpos) a b ha hb
  room hpos keys hnodup hkeys := by
    rw [← hs.capacity_eq, ← ht.capacity_eq]
    refine h.room (ht.capacity_eq ▸ hpos) keys hnodup fun k hk => ?_
    obtain ⟨hnone, hsome⟩ := hkeys k hk
    exact ⟨(hs.live?_eq k).trans hnone, by rwa [ht.live?_eq]⟩

/-! ## Editing -/

/-- What `edit` makes of the row of `key`, if there is one, is all that changes. The key may be
used. -/
structure Edits (now : Instant) (key : α) (edit : β × Option Instant → Option (β × Option Instant))
    (use : Option α) (s s' : Store α β) : Prop where
  indexed : s'.Indexed
  capacity_eq : s'.recency.capacity = s.recency.capacity
  follows : Follows s s' use
  used : use = none ∨ use = some key
  row_self : s'.contents.live? key now = (s.contents.live? key now).bind edit
  row_of_ne : ∀ k, k ≠ key → s'.contents.live? k now = s.contents.live? k now

variable {edit : β × Option Instant → Option (β × Option Instant)} {use : Option α}

/-- An edit brings no key to life. -/
theorem Edits.live_of_edited (h : Edits now key edit use s s')
    (hk : (s'.live? k now).isSome = true) : (s.live? k now).isSome = true := by
  rw [← isSome_live?_contents] at hk ⊢
  by_cases hkey : k = key
  · subst hkey
    rw [h.row_self] at hk
    exact Option.isSome_of_isSome_bind hk
  · rwa [h.row_of_ne k hkey] at hk

/-- Stores that are edited alike stay nested. -/
theorem Nested.edit_both (h : Nested now s t) (hs : s.Indexed) (ht : t.Indexed)
    (hes : Edits now key edit use s s') (het : Edits now key edit use t t') :
    Nested now s' t' := by
  have hincluded : Included now s' t' := by
    intro k row hrow
    by_cases hk : k = key
    · subst hk
      rw [hes.row_self] at hrow
      obtain ⟨old, hold, hedit⟩ := Option.bind_eq_some_iff.mp hrow
      rw [het.row_self, h.included k old hold]
      exact hedit
    · rw [hes.row_of_ne k hk] at hrow
      rw [het.row_of_ne k hk]
      exact h.included k row hrow
  refine h.of_follows hs hes.indexed ht het.indexed hes.capacity_eq het.capacity_eq hes.follows
    het.follows hincluded (fun _ _ => Iff.rfl) (fun k _ hk => hes.live_of_edited hk)
    fun hpos keys hnodup hkeys => ?_
  rw [hes.capacity_eq, het.capacity_eq]
  refine h.room (het.capacity_eq ▸ hpos) keys hnodup fun k hk => ?_
  obtain ⟨hnone, hsome⟩ := hkeys k hk
  rw [isSome_live?_contents] at hsome
  refine ⟨?_, by rw [isSome_live?_contents]; exact het.live_of_edited hsome⟩
  by_cases hkey : k = key
  · subst hkey
    rw [← isSome_live?_contents, het.row_self] at hsome
    rw [hes.row_self] at hnone
    cases hold : s.contents.live? k now with
    | none => rfl
    | some old =>
      rw [h.included k old hold, ← hold, hnone] at hsome
      cases hsome
  · rwa [hes.row_of_ne k hkey] at hnone

/-- The second store may be edited alone at a key that is not live in the first. -/
theorem Nested.edit_right (h : Nested now s t) (hs : s.Indexed) (ht : t.Indexed)
    (hdead : s.live? key now = none) (het : Edits now key edit use t t') : Nested now s t' := by
  have hrow : s.contents.live? key now = none := by rw [live?_contents, hdead]; rfl
  have hne : ∀ k, (s.live? k now).isSome = true → k ≠ key := by
    rintro k hk rfl
    simp [hdead] at hk
  have hincluded : Included now s t' := by
    intro k row hk
    have hkey : k ≠ key := by
      rintro rfl
      simp [hrow] at hk
    rw [het.row_of_ne k hkey]
    exact h.included k row hk
  refine h.of_follows hs hs ht het.indexed rfl het.capacity_eq (follows_of_subset fun _ _ he => he)
    het.follows hincluded (fun k hk => ?_) (fun _ _ hk => hk) fun hpos keys hnodup hkeys => ?_
  · rcases het.used with hu | hu <;> simp [hu, (hne k hk).symm]
  · rw [het.capacity_eq]
    refine h.room (het.capacity_eq ▸ hpos) keys hnodup fun k hk => ⟨(hkeys k hk).1, ?_⟩
    have hsome := (hkeys k hk).2
    rw [isSome_live?_contents] at hsome ⊢
    exact het.live_of_edited hsome

/-! ## Inserting -/

theorem mem_liveKeys : k ∈ (s.liveEntries now).map (·.1) ↔ (s.live? k now).isSome = true := by
  simp only [List.mem_map, Prod.exists, exists_and_right, exists_eq_right, mem_liveEntries,
    Option.isSome_iff_exists]

/-- Different keys of which all but one are live are hardly more than there are live entries. -/
theorem length_le_of_live (s : Store α β) (now : Instant) (others : List α) {keys : List α}
    (hnodup : keys.Nodup) (hkeys : ∀ k ∈ keys, k ∈ others ∨ (s.live? k now).isSome = true) :
    keys.length ≤ others.length + (s.liveEntries now).length := by
  have hsub : keys ⊆ others ++ (s.liveEntries now).map (·.1) := fun k hk => by
    rw [List.mem_append, mem_liveKeys]
    exact hkeys k hk
  have hlength := (List.subperm_of_subset hnodup hsub).length_le
  rwa [List.length_append, List.length_map] at hlength

/-- If the second store holds one entry too many, the first one does as well. -/
theorem Nested.length_liveEntries_le (h : Nested now s t) (hpos : 0 < t.recency.capacity) :
    (t.liveEntries now).length + s.recency.capacity ≤
      (s.liveEntries now).length + t.recency.capacity := by
  have hnodup : ((t.liveEntries now).map (·.1)).Nodup := nodup_keys_filter t.entries _
  have hsplit := List.length_eq_length_filter_add (l := (t.liveEntries now).map (·.1))
    fun k => (s.live? k now).isSome
  have hshared := length_le_of_live s now []
    (hnodup.filter fun k => (s.live? k now).isSome) fun k hk => .inr (List.mem_filter.mp hk).2
  have hsurplus := h.room hpos _ (hnodup.filter fun k => !(s.live? k now).isSome) fun k hk => by
    obtain ⟨hmem, hdead⟩ := List.mem_filter.mp hk
    refine ⟨?_, by rw [isSome_live?_contents]; exact mem_liveKeys.mp hmem⟩
    rw [live?_contents]
    simpa using hdead
  rw [List.length_map] at hsplit
  rw [List.length_nil] at hshared
  omega

theorem Nested.write (h : Nested now s t) (hs : s.Indexed) (ht : t.Indexed) (key : α) (value : β)
    (lifetime : Lifetime) :
    Nested now (s.write key value lifetime now) (t.write key value lifetime now) := by
  have hself : ∀ s : Store α β, (s.write key value lifetime now).contents.live? key now =
      (some (value, lifetime.deadline now)).filter (Rows.isLive now) := fun s => by
    rw [contents_write, Rows.live?_insert_self]
  have hother : ∀ s : Store α β, ∀ k, k ≠ key →
      (s.write key value lifetime now).contents.live? k now = s.contents.live? k now :=
    fun s k hk => by rw [contents_write, Rows.live?_insert_of_ne hk]
  refine h.of_follows hs (hs.write ..) ht (ht.write ..) capacity_write capacity_write
    (follows_write key value lifetime now) (follows_write key value lifetime now) ?_
    (fun _ _ => Iff.rfl) ?_ fun hpos keys hnodup hkeys => ?_
  · intro k row hrow
    by_cases hk : k = key
    · subst hk
      rwa [hself] at hrow ⊢
    · rw [hother s k hk] at hrow
      rw [hother t k hk]
      exact h.included k row hrow
  · intro k hk hlive
    rw [← isSome_live?_contents, hother s k (ne_of_unused hk), isSome_live?_contents] at hlive
    exact hlive
  · rw [capacity_write, capacity_write]
    refine h.room (by rwa [capacity_write] at hpos) keys hnodup fun k hk => ?_
    obtain ⟨hnone, hsome⟩ := hkeys k hk
    -- the key just written is live in both or in neither
    have hne : k ≠ key := by
      rintro rfl
      rw [hself] at hnone hsome
      simp [hnone] at hsome
    rw [hother s k hne] at hnone
    rw [hother t k hne] at hsome
    exact ⟨hnone, hsome⟩

/-- A key that is still live in the first store after an insert is no victim of the second. Were
it one, the first store would have had to make room too, and its victim would be another key: but
each of the two victims would then have been used before the other. -/
theorem Nested.not_mem_victims (h : Nested now s t) {victims victims' : List α}
    (hs : MadeRoom s now victims s') (ht : MadeRoom t now victims' t')
    (hlive : (s.live? k now).isSome = true) (hk : k ∉ victims) : k ∉ victims' := by
  intro hvictim
  obtain ⟨-, hmany, -, hkfirst⟩ := ht.of_mem_victims hvictim
  have hcount := h.length_liveEntries_le (by omega)
  obtain ⟨v, rfl, hvlive, hvfirst⟩ := hs.one_of_lt h.bounded (by omega)
  have hne : v ≠ k := fun hvk => hk (List.mem_singleton.mpr hvk.symm)
  have hbefore := hvfirst k hne.symm hlive
  rw [h.before_iff (by omega) v k hvlive hlive] at hbefore
  exact not_before_both hbefore (hkfirst v hne (h.included.isSome hvlive))

/-- Making room keeps stores nested. -/
theorem Nested.included_of_madeRoom (h : Nested now s t) {victims victims' : List α}
    (hs : MadeRoom s now victims s') (ht : MadeRoom t now victims' t') :
    Included now s' t' := by
  intro k row hrow
  have hk : k ∉ victims := fun hk => by
    rw [live?_contents, live?, hs.victim_gone k hk] at hrow
    cases hrow
  rw [live?_contents, hs.live_eq k hk, ← live?_contents] at hrow
  have hlive : (s.live? k now).isSome = true := by
    rw [← isSome_live?_contents, hrow]
    rfl
  rw [live?_contents, ht.live_eq k (h.not_mem_victims hs ht hlive hk), ← live?_contents]
  exact h.included k row hrow

theorem Nested.room_of_madeRoom (h : Nested now s t) {victims victims' : List α}
    (hs : MadeRoom s now victims s') (ht : MadeRoom t now victims' t')
    (hpos : 0 < t'.recency.capacity) {keys : List α} (hnodup : keys.Nodup)
    (hkeys : ∀ k ∈ keys, Surplus now s' t' k) :
    keys.length + s'.recency.capacity ≤ t'.recency.capacity := by
  have hincluded := h.included_of_madeRoom hs ht
  rw [ht.capacity_eq] at hpos
  by_cases hfew : (s.liveEntries now).length ≤ s.recency.capacity
  · -- the first store evicts nothing
    obtain rfl := hs.none_of_le (.inr hfew)
    rw [hs.capacity_eq, ht.capacity_eq]
    refine h.room hpos keys hnodup fun k hk => ?_
    obtain ⟨hnone, hsome⟩ := hkeys k hk
    have hkept : k ∉ victims' := fun hgone => by
      rw [live?_contents, live?, ht.victim_gone k hgone] at hsome
      cases hsome
    rw [live?_contents, hs.live_eq k (by simp), ← live?_contents] at hnone
    rw [live?_contents, ht.live_eq k hkept, ← live?_contents] at hsome
    exact ⟨hnone, hsome⟩
  · -- the first store is full of keys that the second one holds too
    obtain ⟨v, rfl, -, -⟩ := hs.one_of_lt h.bounded (by omega)
    have hfull := length_le_of_live s' now [v]
      (show ((s.liveEntries now).map (·.1)).Nodup from nodup_keys_filter s.entries _) fun k hk => by
        by_cases hkv : k = v
        · exact .inl (List.mem_singleton.mpr hkv)
        · rw [hs.live_eq k (by simpa using hkv)]
          exact .inr (mem_liveKeys.mp hk)
    have hboth : (keys ++ (s'.liveEntries now).map (·.1)).Nodup := by
      refine List.nodup_append.mpr ⟨hnodup, nodup_keys_filter s'.entries _, fun a ha b hb hab => ?_⟩
      have hdead := (hkeys a ha).1
      have hlive := mem_liveKeys.mp (hab ▸ hb)
      rw [← isSome_live?_contents, hdead] at hlive
      cases hlive
    have hall := length_le_of_live t' now [] hboth fun k hk => by
      rcases List.mem_append.mp hk with hk | hk
      · exact .inr (by rw [← isSome_live?_contents]; exact (hkeys k hk).2)
      · exact .inr (hincluded.isSome (mem_liveKeys.mp hk))
    have hsize := Store.length_liveEntries_le t' now
    have hfits := fits_iff.mp ht.fits
    rw [List.length_map, List.length_singleton] at hfull
    rw [List.length_append, List.length_map, List.length_nil] at hall
    rw [hs.capacity_eq]
    have hcap := ht.capacity_eq
    omega

/-- The same insert keeps stores nested. -/
theorem Nested.insert (h : Nested now s t) (hs : s.Consistent) (ht : t.Consistent) (key : α)
    (value : β) (lifetime : Lifetime) :
    Nested now (s.insert key value lifetime now).2 (t.insert key value lifetime now).2 := by
  have hw := h.write hs.indexed ht.indexed key value lifetime
  have hsroom := hs.insert key value lifetime now
  have htroom := ht.insert key value lifetime now
  refine h.of_follows hs.indexed hsroom.indexed ht.indexed htroom.indexed
    (hsroom.capacity_eq.trans capacity_write) (htroom.capacity_eq.trans capacity_write)
    (hs.follows_after (.insert key value lifetime now))
    (ht.follows_after (.insert key value lifetime now)) (hw.included_of_madeRoom hsroom htroom)
    (fun _ _ => Iff.rfl)
    (fun k hk hlive => hs.live_of_after
      (show Deed.HappensAt now (.insert key value lifetime now) from rfl) hk hlive)
    fun hpos keys hnodup hkeys => hw.room_of_madeRoom hsroom htroom hpos hnodup hkeys

/-! ## Deeds -/

variable {deed : Deed α β}

theorem Consistent.edits (h : s.Consistent) (hnow : deed.HappensAt now)
    (hedit : deed.edit? now = some (key, edit)) :
    Edits now key edit deed.use? s (s.after deed) := by
  suffices hrows : (deed.use? = none ∨ deed.use? = some key) ∧
      (s.after deed).contents.live? key now = (s.contents.live? key now).bind edit ∧
      ∀ k, k ≠ key → (s.after deed).contents.live? k now = s.contents.live? k now from
    ⟨(h.after deed).indexed, capacity_after h deed, h.follows_after deed, hrows.1, hrows.2.1,
      hrows.2.2⟩
  cases deed with
  | hit key | touch key =>
    cases hedit
    refine ⟨.inr rfl, ?_, fun k _ => congrArg (Rows.live? · k now) (contents_touch _ key)⟩
    rw [Option.bind_fun_some]
    exact congrArg (Rows.live? · key now) (contents_touch _ key)
  | remove key =>
    cases hedit
    exact ⟨.inl rfl, by simp [Store.after, live?_remove_self], fun k hk => live?_remove_of_ne hk⟩
  | replace key value =>
    cases hedit
    refine ⟨.inr rfl, ?_, fun k hk => live?_replaceValue_of_ne hk value⟩
    rw [Store.after, live?_replaceValue_self, Option.map_eq_bind]
    rfl
  | extend key lifetime moment =>
    obtain rfl : moment = now := hnow
    cases hedit
    exact ⟨.inl rfl, live?_setLifetime_self s key lifetime moment,
      fun k hk => live?_setLifetime_of_ne hk lifetime⟩
  | miss | insert | purge | reset => cases hedit

/-- The same deed, done to both, keeps stores nested. -/
theorem Nested.after (h : Nested now s t) (hs : s.Consistent) (ht : t.Consistent)
    (hnow : deed.HappensAt now) : Nested now (s.after deed) (t.after deed) := by
  cases hedit : deed.edit? now with
  | some edited =>
    exact h.edit_both hs.indexed ht.indexed (hs.edits hnow hedit) (ht.edits hnow hedit)
  | none =>
    cases deed with
    | miss => exact ⟨h.bounded, h.included, h.before_iff, h.room⟩
    | insert key value lifetime moment =>
      obtain rfl : moment = now := hnow
      exact h.insert hs ht key value lifetime
    | purge order moment limit =>
      obtain rfl : moment = now := hnow
      exact h.of_alike (hs.alike_purge order (Instant.le_refl moment) limit)
        (ht.alike_purge order (Instant.le_refl moment) limit)
    | reset =>
      exact nested_of_no_entries (s := s.reset) (t := t.reset) rfl rfl h.bounded h.capacity_le now
    | hit | touch | remove | replace | extend => cases hedit

theorem Nested.afterAll (h : Nested now s t) (hs : s.Consistent) (ht : t.Consistent)
    {deeds : List (Deed α β)} (hnow : ∀ deed ∈ deeds, deed.HappensAt now) :
    Nested now (s.afterAll deeds) (t.afterAll deeds) := by
  induction deeds generalizing s t with
  | nil => exact h
  | cons deed deeds ih =>
    exact ih (h.after hs ht (hnow deed (by simp))) (hs.after deed) (ht.after deed)
      fun d hd => hnow d (by simp [hd])

end Store

end ExpiringCache
