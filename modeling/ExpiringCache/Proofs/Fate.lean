import ExpiringCache.Proofs.OneKey
import ExpiringCache.Proofs.Views

/-!
# The fate of a row that nobody writes again

A key is left alone by reads, by sweeps and by writes of other keys. Its row then stays as it was
written, whatever happens to the indices, to the order of use and to the rows of others. It goes in
two ways only: as the one victim of an insert that finds no room, or by being purged once it is
over.

1. **Leaving a key alone** (`Deed.Spares`, `Section.Spares`): said of deeds, and of sections in
   terms of what callers ask for.
2. **One deed** (`Store.Consistent.contents_after_of_spares`): the row stays, or goes in one of the
   two ways.
3. **Runs** (`Store.trail`, `Cache.trail`, `Stays`): the deeds of a run with the stores that they
   find.
4. **What becomes of a write** (`Cache.Fate`): what is stored, what a lookup finds and what remains
   of the lifetime, after any run that leaves the key alone.
-/

namespace ExpiringCache

variable {α β : Type}

theorem Lifetime.deadline_of_pos {lifetime : Lifetime} (h : 0 < lifetime.ns) (now : Instant) :
    ∃ expiry, lifetime.deadline now = some expiry ∧
      expiry.ms = min Instant.latest.ms (now.ms + max 1 (lifetime.ns / 1000000)) := by
  have hmillis : lifetime.wholeMillis = lifetime.ns / 1000000 :=
    Int.tdiv_eq_ediv_of_nonneg (Int.le_of_lt h)
  rw [← hmillis]
  exact exists_deadline (Int.ne_of_gt h) now

/-! ## Leaving a key alone -/

namespace Deed

/-- The deed writes no entry of `key`. It may touch it, purge it or evict it. -/
def Spares (key : α) : Deed α β → Prop
  | .insert k _ _ _ | .remove k | .replace k _ | .extend k _ _ => k ≠ key
  | .miss | .hit _ | .touch _ | .purge _ _ _ => True
  | .reset => False

/-- The moment as of which the deed may remove expired entries. -/
def purges? : Deed α β → Option Instant
  | .insert _ _ _ now | .purge _ now _ => some now
  | .miss | .hit _ | .touch _ | .remove _ | .replace _ _ | .extend _ _ _ | .reset => none

variable {key k : α} {now moment : Instant} {deed : Deed α β}

theorem HappensAt.eq_of_purges? (h : deed.HappensAt now) (hpurges : deed.purges? = some moment) :
    moment = now := by
  cases deed with
  | insert _ _ _ t | purge _ t _ =>
    rw [← Option.some.inj hpurges]
    exact h
  | _ => cases hpurges

theorem spares_put (hk : k ≠ key) (value : Option β) (lifetime : Lifetime) (now : Instant) :
    (put k value lifetime now).Spares key := by
  unfold put
  split <;> exact hk

theorem spares_putNew (hk : k ≠ key) {value : Option β} {lifetime : Lifetime}
    (h : deed ∈ putNew k value lifetime now) : deed.Spares key := by
  unfold putNew at h
  split at h
  · rw [List.mem_singleton.mp h]
    exact hk
  · cases h

end Deed

/-- The operation writes no entry of `key`: it reads, or names other keys only, or it is a
conditional write that finds the key `live`. -/
def Operation.Spares (key : α) (live : Prop) : Operation α β → Prop
  | .set k _ _ | .update k _ | .setLifetime k _ => k ≠ key
  | .setAll listed _ => ∀ item ∈ listed, item.1 ≠ key
  | .remove listed => key ∉ listed
  | .setIfAbsent k _ _ | .getOrSet k _ _ => k = key → live
  | .get _ | .contains _ | .timeLeft _ | .size | .pairs | .keys | .values => True
  | .clear | .close => False

/-- The section writes no entry of `key`. A call that computes a value for `key` does so if it finds
the key `live`, at its first look or under the lock. -/
def Section.Spares (key : α) (live : Prop) : Section α β → Prop
  | .perform op => op.Spares key live
  | .look _ | .sweepBatch _ => True
  | .finish call _ _ => call.key = key → call.form.locks = true ∧ live
  | .shut => False

variable [Ord α] [Std.TransOrd α]

theorem Operation.spares_deeds {op : Operation α β} {key : α} {s : Store α β} {now : Instant}
    (h : op.Spares key ((s.live? key now).isSome = true)) {deed : Deed α β}
    (hdeed : deed ∈ op.deeds s now) : deed.Spares key := by
  cases op with
  | set k value lifetime =>
    rw [List.mem_singleton.mp hdeed]
    exact Deed.spares_put h value lifetime now
  | setAll listed lifetime =>
    obtain ⟨item, hitem, rfl⟩ := List.mem_map.mp hdeed
    exact Deed.spares_put (h item hitem) item.2 lifetime now
  | setIfAbsent k value lifetime =>
    simp only [deeds] at hdeed
    split at hdeed
    · cases hdeed
    · rename_i hdead
      have hk : k ≠ key := by
        rintro rfl
        exact hdead (h rfl)
      exact Deed.spares_putNew hk hdeed
  | getOrSet k value lifetime =>
    simp only [deeds] at hdeed
    split at hdeed
    · rw [List.mem_singleton.mp hdeed]
      trivial
    · rename_i hdead
      have hk : k ≠ key := by
        rintro rfl
        exact hdead (h rfl)
      rcases List.mem_cons.mp hdeed with rfl | hput
      · trivial
      · exact Deed.spares_putNew hk hput
  | remove listed =>
    obtain ⟨k, hk, rfl⟩ := List.mem_map.mp hdeed
    intro heq
    exact h (heq ▸ hk)
  | update k value =>
    simp only [deeds] at hdeed
    split at hdeed
    · rw [List.mem_singleton.mp hdeed]
      cases value <;> exact h
    · cases hdeed
  | setLifetime k lifetime =>
    simp only [deeds] at hdeed
    split at hdeed
    · cases hdeed
    · split at hdeed
      · cases hdeed
      · rw [List.mem_singleton.mp hdeed]
        split <;> exact h
  | get | contains | timeLeft | size | pairs | keys | values | clear | close => cases hdeed

theorem Call.spares_lockedDeeds {call : Call α} {key : α} {s : Store α β} {now later : Instant}
    {outcome : Except Fault (Option β)}
    (h : call.key = key → (s.live? key now).isSome = true) {deed : Deed α β}
    (hdeed : deed ∈ call.lockedDeeds outcome s now later) : deed.Spares key := by
  obtain ⟨form, k, lifetime⟩ := call
  simp only [lockedDeeds] at hdeed
  split at hdeed
  · cases form with
    | setIfAbsent => cases hdeed
    | getOrSet | getOrSetLocked =>
      rw [List.mem_singleton.mp hdeed]
      trivial
  · rename_i hdead
    have hk : k ≠ key := by
      rintro rfl
      exact hdead (h rfl)
    cases outcome with
    | error fault => cases hdeed
    | ok value => exact Deed.spares_putNew hk hdeed

namespace Store

/-! ## The two ways to go -/

/-- The deeds, each with the store that it finds. -/
def trail : Store α β → List (Deed α β) → List (Store α β × Deed α β)
  | _, [] => []
  | s, deed :: deeds => (s, deed) :: trail (s.after deed) deeds

/-- The deed is an insert that finds no room, and `key` is its one victim: of all live keys the one
unused for the longest time. -/
def EvictsOldest (s : Store α β) (key : α) : Deed α β → Prop
  | .insert k value lifetime now =>
    (s.insert k value lifetime now).1 = [key] ∧
      ((s.write k value lifetime now).live? key now).isSome = true ∧
      ∀ other, other ≠ key → ((s.write k value lifetime now).live? other now).isSome = true →
        (s.write k value lifetime now).Before key other
  | _ => False

/-- The deed takes the row of `key` from the store, by evicting it or by purging what is over. -/
structure Drops (s : Store α β) (key : α) (row : β × Option Instant) (deed : Deed α β) : Prop where
  stored : s.contents[key]? = some row
  gone : (s.after deed).contents[key]? = none
  way : s.EvictsOldest key deed ∨
    ∃ expiry now, row.2 = some expiry ∧ deed.purges? = some now ∧ expiry ≤ now

/-- The store still has the row that was written for `key` at `moment`; or it was over at once,
where the clock can show no later moment; or one of the steps took it. -/
def Stays (moment : Instant) (steps : List (Store α β × Deed α β)) (key : α)
    (row : β × Option Instant) (s : Store α β) : Prop :=
  s.contents[key]? = some row ∨
    s.contents[key]? = none ∧
      ((∃ expiry, row.2 = some expiry ∧ expiry ≤ moment) ∨
        ∃ step ∈ steps, step.1.Drops key row step.2)

/-- One of the steps evicts `key`. -/
def Evicted (steps : List (Store α β × Deed α β)) (key : α) : Prop :=
  ∃ step ∈ steps, ∃ k victims, (k, victims) ∈ step.1.evictsOf step.2 ∧ key ∈ victims

variable {s : Store α β} {key : α} {row : β × Option Instant} {deed : Deed α β} {moment : Instant}
  {steps more : List (Store α β × Deed α β)}

theorem EvictsOldest.evicted (h : s.EvictsOldest key deed) (hstep : (s, deed) ∈ steps) :
    Evicted steps key := by
  cases deed with
  | insert k value lifetime now =>
    refine ⟨_, hstep, k, _, List.mem_singleton_self _, ?_⟩
    rw [h.1]
    exact List.mem_singleton_self key
  | _ => exact h.elim

theorem Stays.append (h : Stays moment steps key row s) :
    Stays moment (steps ++ more) key row s := by
  rcases h with hrow | ⟨hgone, hover | ⟨step, hstep, hdrops⟩⟩
  · exact .inl hrow
  · exact .inr ⟨hgone, .inl hover⟩
  · exact .inr ⟨hgone, .inr ⟨step, List.mem_append_left _ hstep, hdrops⟩⟩

/-- The contents are all that matters. -/
theorem Stays.congr {t : Store α β} (h : Stays moment steps key row s)
    (heq : t.contents = s.contents) : Stays moment steps key row t := by
  unfold Stays
  rwa [heq]

variable [Std.LawfulEqOrd α]

/-- What is evicted is evicted alone, and because it was unused for the longest time. -/
theorem Consistent.evictsOldest (h : s.Consistent) {k : α} {victims : List α}
    (hevicts : (k, victims) ∈ s.evictsOf deed) (hkey : key ∈ victims) :
    s.EvictsOldest key deed := by
  cases deed with
  | insert k value lifetime now =>
    obtain ⟨-, rfl⟩ := Prod.mk.inj (List.mem_singleton.mp hevicts)
    obtain ⟨hvictims, -, hlive, hfirst⟩ :=
      (h.insert k value lifetime now).of_mem_victims hkey
    exact ⟨hvictims, hlive, hfirst⟩
  | _ => cases hevicts

/-- A stored row that is not live is over. -/
theorem exists_expiry_le {now : Instant} (hrow : s.contents[key]? = some row)
    (hdead : s.live? key now = none) : ∃ expiry, row.2 = some expiry ∧ expiry ≤ now := by
  rw [getElem?_contents, Option.map_eq_some_iff] at hrow
  obtain ⟨e, he, rfl⟩ := hrow
  exact Entry.isExpiredAt_iff.mp (isExpiredAt_of_live?_eq_none he hdead)

/-- A deed that spares a key leaves its row as it is, or removes it in one of the two ways. -/
theorem Consistent.contents_after_of_spares (h : s.Consistent) (hspares : deed.Spares key) :
    (s.after deed).contents[key]? = s.contents[key]? ∨
      (s.after deed).contents[key]? = none ∧
        (s.EvictsOldest key deed ∨ ∃ now, deed.purges? = some now ∧ s.live? key now = none) := by
  cases deed with
  | miss => exact .inl rfl
  | hit k | touch k => exact .inl (congrArg (·[key]?) (contents_touch _ k))
  | insert k value lifetime now =>
    have hroom := h.insert k value lifetime now
    have hwrite : (s.write k value lifetime now).entries[key]? = s.entries[key]? :=
      getElem?_write_of_ne (Ne.symm hspares)
    simp only [Store.after, getElem?_contents]
    by_cases hvictim : key ∈ (s.insert k value lifetime now).1
    · have hevicts : (k, (s.insert k value lifetime now).1) ∈
          s.evictsOf (.insert k value lifetime now) := List.mem_singleton_self _
      exact .inr ⟨by rw [hroom.victim_gone key hvictim]; rfl, .inl (h.evictsOldest hevicts hvictim)⟩
    · have hlive := hroom.live_eq key hvictim
      cases hleft : (s.insert k value lifetime now).2.entries[key]? with
      | some e =>
        -- what is left was there before
        refine .inl ?_
        rw [← hwrite, hroom.entry_of key e hleft]
      | none =>
        refine .inr ⟨rfl, .inr ⟨now, rfl, ?_⟩⟩
        rw [live?, ← hwrite, ← live?, ← hlive, live?, hleft]
        rfl
  | remove k =>
    refine .inl ?_
    rw [Store.after, contents_remove, getElem?_erase_of_ne (Ne.symm hspares)]
  | replace k value =>
    refine .inl ?_
    cases he : s.entries[k]? with
    | none => rw [Store.after, replaceValue_of_absent he]
    | some e => rw [Store.after, contents_replaceValue he, getElem?_insert_of_ne (Ne.symm hspares)]
  | extend k lifetime now =>
    refine .inl ?_
    cases hl : s.live? k now with
    | none => simp only [Store.after, Store.setLifetime, hl]
    | some e => rw [Store.after, contents_setLifetime hl, getElem?_insert_of_ne (Ne.symm hspares)]
  | purge order now limit =>
    simp only [Store.after, getElem?_contents]
    rcases h.indexed.getElem?_purgeDue order now (some limit) key with hsame | ⟨hgone, hdead⟩
    · exact .inl (by rw [hsame])
    · exact .inr ⟨by rw [hgone]; rfl, .inr ⟨now, rfl, hdead⟩⟩
  | reset => exact hspares.elim

/-! ## Deeds one after the other -/

theorem Stays.after (h : Stays moment steps key row s) (hs : s.Consistent)
    (hspares : deed.Spares key) : Stays moment (steps ++ [(s, deed)]) key row (s.after deed) := by
  rcases hs.contents_after_of_spares hspares with hsame | ⟨hgone, hway⟩
  · unfold Stays
    rw [hsame]
    exact h.append
  · refine .inr ⟨hgone, ?_⟩
    rcases h with hrow | ⟨-, hover | ⟨step, hstep, hdrops⟩⟩
    · -- this is the step in which the key goes
      refine .inr ⟨(s, deed), by simp, hrow, hgone, hway.imp_right ?_⟩
      rintro ⟨now, hpurges, hdead⟩
      obtain ⟨expiry, hexpiry, hle⟩ := exists_expiry_le hrow hdead
      exact ⟨expiry, now, hexpiry, hpurges, hle⟩
    · exact .inl hover
    · exact .inr ⟨step, List.mem_append_left _ hstep, hdrops⟩

theorem Stays.afterAll (h : Stays moment steps key row s) (hs : s.Consistent)
    {deeds : List (Deed α β)} (hspares : ∀ deed ∈ deeds, deed.Spares key) :
    Stays moment (steps ++ s.trail deeds) key row (s.afterAll deeds) := by
  induction deeds generalizing s steps with
  | nil => simpa [trail] using h
  | cons deed deeds ih =>
    obtain ⟨hdeed, hdeeds⟩ := List.forall_mem_cons.mp hspares
    have hrest := ih (h.after hs hdeed) (hs.after deed) hdeeds
    rwa [List.append_assoc] at hrest

theorem Consistent.of_mem_trail (h : s.Consistent) {deeds : List (Deed α β)}
    {step : Store α β × Deed α β} (hstep : step ∈ s.trail deeds) :
    step.1.Consistent ∧ step.2 ∈ deeds := by
  induction deeds generalizing s with
  | nil => cases hstep
  | cons deed deeds ih =>
    rcases List.mem_cons.mp hstep with rfl | hrest
    · exact ⟨h, List.mem_cons_self⟩
    · obtain ⟨hconsistent, hmem⟩ := ih (h.after deed) hrest
      exact ⟨hconsistent, List.mem_cons_of_mem _ hmem⟩

/-! ## The row itself -/

/-- A write leaves its row, unless the row is over at once. -/
theorem Consistent.stays_insert (h : s.Consistent) (key : α) (value : β) (lifetime : Lifetime)
    (moment : Instant) :
    Stays moment [] key (value, lifetime.deadline moment)
      (s.after (.insert key value lifetime moment)) := by
  have hroom := h.insert key value lifetime moment
  have hlive := hroom.live_eq key h.not_mem_insert_fst
  have hwritten : (s.write key value lifetime moment).contents[key]? =
      some (value, lifetime.deadline moment) := by
    rw [contents_write, Std.ExtTreeMap.getElem?_insert_self]
  cases hleft : (s.insert key value lifetime moment).2.entries[key]? with
  | some e =>
    refine .inl ?_
    rw [← hwritten, getElem?_contents, getElem?_contents, hroom.entry_of key e hleft, Store.after,
      hleft]
  | none =>
    refine .inr ⟨by rw [getElem?_contents, Store.after, hleft]; rfl, .inl ?_⟩
    refine exists_expiry_le hwritten ?_
    rw [← hlive, live?, hleft]
    rfl

omit [Std.LawfulEqOrd α] in
/-- Unless the key was evicted, its row is what a caller goes by, whether it is still stored or was
purged. -/
theorem Stays.live?_eq (h : Stays moment steps key row s) {now : Instant} (hle : moment ≤ now)
    (hpurges : ∀ step ∈ steps, ∀ t, step.2.purges? = some t → t ≤ now)
    (hkept : ¬ Evicted steps key) :
    s.contents.live? key now = (some row).filter (Rows.isLive now) := by
  have hover : ∀ expiry t : Instant, row.2 = some expiry → expiry ≤ t → t ≤ now →
      (some row).filter (Rows.isLive now) = none := by
    intro expiry t hexpiry hexpired ht
    have hnow := Instant.le_trans hexpired ht
    rw [Instant.le_def] at hnow
    simp [Option.filter, Rows.isLive, hexpiry, Instant.lt_def, hnow]
  rcases h with hrow | ⟨hgone, ⟨expiry, hexpiry, hexpired⟩ | ⟨step, hstep, hdrops⟩⟩
  · rw [Rows.live?, hrow]
  · rw [Rows.live?, hgone, hover expiry moment hexpiry hexpired hle]
    rfl
  · rcases hdrops.way with hevicts | ⟨expiry, t, hexpiry, hpurge, hexpired⟩
    · exact absurd (hevicts.evicted hstep) hkept
    · rw [Rows.live?, hgone, hover expiry t hexpiry hexpired (hpurges step hstep t hpurge)]
      rfl

end Store

namespace Cache

variable {c : Cache α β} {key : α} {row : β × Option Instant} {sec : Section α β}
  {now moment : Instant}

/-- The deeds of a run, each with the store that it finds, pending touches replayed. -/
def trail : Cache α β → List (Section α β × Instant) → List (Store α β × Deed α β)
  | _, [] => []
  | c, (sec, now) :: run =>
    c.settled.trail (sec.effect c now).deeds ++ trail (c.enact sec now) run

/-- Every section of the run leaves `key` alone. -/
def Spares (key : α) : Cache α β → List (Section α β × Instant) → Prop
  | _, [] => True
  | c, (sec, now) :: run =>
    sec.Spares key ((c.store.live? key now).isSome = true) ∧ Spares key (c.enact sec now) run

variable [Std.LawfulEqOrd α]

/-- A section that leaves `key` alone does no deed to its entry. -/
theorem spares_effect (h : sec.Spares key ((c.store.live? key now).isSome = true))
    {deed : Deed α β} (hdeed : deed ∈ (sec.effect c now).deeds) : deed.Spares key := by
  cases does_of_mem_deeds hdeed with
  | operation hmem =>
    refine Operation.spares_deeds ?_ hmem
    rw [← settled, isSome_live?_settled]
    exact h
  | locked hlocks hmem =>
    refine Call.spares_lockedDeeds (fun hk => ?_) hmem
    rw [← settled, isSome_live?_settled]
    exact (h hk).2
  | unlocked hform =>
    intro hk
    have hlocks := (h hk).1
    rw [hform] at hlocks
    cases hlocks
  | miss | hit | sweep => trivial
  | clear | close => exact h.elim

/-! ## Runs -/

/-- One section: its deeds are done to the settled store, and a read changes no contents. -/
theorem stays_enact {steps : List (Store α β × Deed α β)} (h : c.Consistent)
    (hstays : Store.Stays moment steps key row c.store)
    (hspares : sec.Spares key ((c.store.live? key now).isSome = true)) :
    Store.Stays moment (steps ++ c.settled.trail (sec.effect c now).deeds) key row
      (c.enact sec now).store := by
  have hdeeds : ∀ deed ∈ (sec.effect c now).deeds, deed.Spares key :=
    fun deed hdeed => spares_effect hspares hdeed
  have hsettled := (hstays.congr contents_settled).afterAll h.settled hdeeds
  exact hsettled.congr (seen_enact c sec now).1

theorem stays_enactAll {steps : List (Store α β × Deed α β)} (h : c.Consistent)
    (hstays : Store.Stays moment steps key row c.store) {run : List (Section α β × Instant)}
    (hspares : c.Spares key run) :
    Store.Stays moment (steps ++ c.trail run) key row (c.enactAll run).store := by
  induction run generalizing c steps with
  | nil => simpa [trail] using hstays
  | cons item run ih =>
    obtain ⟨sec, now⟩ := item
    obtain ⟨hsec, hrun⟩ := hspares
    have hrest := ih (h.enact sec now) (stays_enact h hstays hsec) hrun
    rwa [List.append_assoc] at hrest

/-- The steps of a run find consistent stores, and happen when its sections end. -/
theorem Consistent.of_mem_trail (h : c.Consistent) {run : List (Section α β × Instant)}
    {step : Store α β × Deed α β} (hstep : step ∈ c.trail run) :
    step.1.Consistent ∧ ∃ item ∈ run, step.2.HappensAt (item.1.ends item.2) := by
  induction run generalizing c with
  | nil => cases hstep
  | cons item run ih =>
    obtain ⟨sec, now⟩ := item
    rcases List.mem_append.mp hstep with hhere | hrest
    · obtain ⟨hconsistent, hmem⟩ := h.settled.of_mem_trail hhere
      exact ⟨hconsistent, (sec, now), List.mem_cons_self, happensAt_effect hmem⟩
    · obtain ⟨hconsistent, item, hitem, hnow⟩ := ih (h.enact sec now) hrest
      exact ⟨hconsistent, item, List.mem_cons_of_mem _ hitem, hnow⟩

/-! ## What becomes of a write -/

/-- What has become, at `now`, of the entry that was written for `key` at `moment`, after some steps
that left the key alone. -/
structure Fate (key : α) (value : β) (lifetime : Lifetime) (moment : Instant)
    (steps : List (Store α β × Deed α β)) (d : Cache α β) (now : Instant) : Prop where
  /-- The zero lifetime has no deadline. -/
  forever : lifetime.ns = 0 → lifetime.deadline moment = none
  /-- Any other ends whole milliseconds later, but not at once, and when the clock ends. -/
  expires : 0 < lifetime.ns → ∃ expiry, lifetime.deadline moment = some expiry ∧
    expiry.ms = min Instant.latest.ms (moment.ms + max 1 (lifetime.ns / 1000000))
  /-- While it is stored, neither its value nor its deadline has changed. -/
  entry_eq : ∀ e : Entry β, d.store.entries[key]? = some e →
    e.value = value ∧ e.deadline = lifetime.deadline moment
  /-- It was over as it was written, or one step evicted or purged it. -/
  left_by : d.store.entries[key]? = none →
    (∃ expiry, lifetime.deadline moment = some expiry ∧ expiry ≤ moment) ∨
      ∃ step ∈ steps, step.1.Drops key (value, lifetime.deadline moment) step.2
  /-- No insert evicts it together with another key, or before one unused for longer. -/
  evicted_alone : ∀ step ∈ steps, ∀ (k : α) (victims : List α),
    (k, victims) ∈ step.1.evictsOf step.2 → key ∈ victims → step.1.EvictsOldest key step.2
  lookup_iff : ¬ Store.Evicted steps key → ((d.lookup key now).answer = some value ↔
    ∀ expiry, lifetime.deadline moment = some expiry → now < expiry)
  lookup_eq_none : ¬ Store.Evicted steps key → ∀ expiry,
    lifetime.deadline moment = some expiry → expiry ≤ now → (d.lookup key now).answer = none
  timeLeft_unlimited : ¬ Store.Evicted steps key → 0 ≤ now.ms →
    lifetime.deadline moment = none → (d.timeLeft key now).answer = .ok .unlimited
  timeLeft_eq : ¬ Store.Evicted steps key → 0 ≤ now.ms → ∀ expiry,
    lifetime.deadline moment = some expiry → (d.timeLeft key now).answer =
      .ok (if now < expiry then .millis (expiry.ms - now.ms).toNat else .absent)

theorem fate_of_stays {d : Cache α β} {value : β} {lifetime : Lifetime}
    {steps : List (Store α β × Deed α β)}
    (h : Store.Stays moment steps key (value, lifetime.deadline moment) d.store)
    (hconsistent : ∀ step ∈ steps, step.1.Consistent) (hle : moment ≤ now)
    (hpurges : ∀ step ∈ steps, ∀ t, step.2.purges? = some t → t ≤ now) :
    Fate key value lifetime moment steps d now := by
  have hlive : ¬ Store.Evicted steps key → d.store.contents.live? key now =
      (some (value, lifetime.deadline moment)).filter (Rows.isLive now) :=
    fun hkept => h.live?_eq hle hpurges hkept
  have hlookup : ¬ Store.Evicted steps key → (d.lookup key now).answer =
      ((some (value, lifetime.deadline moment)).filter (Rows.isLive now)).map (·.1) := by
    intro hkept
    rw [answer_lookup, ← Store.value_live?_contents, hlive hkept]
  constructor
  · intro hzero
    exact if_pos hzero
  · intro hpos
    exact Lifetime.deadline_of_pos hpos moment
  · intro e he
    rcases h with hrow | ⟨hgone, -⟩
    · rw [Store.getElem?_contents, he] at hrow
      exact Prod.mk.inj (Option.some.inj hrow)
    · rw [Store.getElem?_contents, he] at hgone
      cases hgone
  · intro hnone
    rcases h with hrow | ⟨-, hway⟩
    · rw [Store.getElem?_contents, hnone] at hrow
      cases hrow
    · exact hway
  · intro step hstep k victims hevicts hkey
    exact (hconsistent step hstep).evictsOldest hevicts hkey
  · intro hkept
    rw [hlookup hkept]
    cases hdeadline : lifetime.deadline moment with
    | none => simp [Option.filter, Rows.isLive]
    | some expiry => by_cases hlt : now < expiry <;> simp [Option.filter, Rows.isLive, hlt]
  · intro hkept expiry hdeadline hover
    rw [Instant.le_def] at hover
    rw [hlookup hkept]
    simp [Option.filter, Rows.isLive, hdeadline, Instant.lt_def, hover]
  · intro hkept hnow hdeadline
    rw [answer_timeLeft hnow, hlive hkept]
    simp [Option.filter, Rows.isLive, Rows.timeLeft, hdeadline]
  · intro hkept hnow expiry hdeadline
    rw [answer_timeLeft hnow, hlive hkept]
    by_cases hlt : now < expiry <;>
      simp [Option.filter, Rows.isLive, Rows.timeLeft, hdeadline, hlt]

/-- Whatever section of whatever reachable cache writes an entry for `key`, and whatever happens
then, in the same section and in a run that leaves the key alone: the entry is not changed, goes in
one of the two ways only, and is found until it is over, unless it was evicted. The clock may go
back as long as no moment of the run is after the last reading. -/
theorem fate_of_write (capacity batch : Nat) (sweeper : Option Nat)
    (past : List (Section α β × Instant)) {sec : Section α β} {began moment now : Instant}
    {earlier later : List (Deed α β)} {key : α} {value : β} {lifetime : Lifetime}
    (hwrite : sec.effect ({ (empty capacity batch) with sweeper }.enactAll past) began =
      .write (earlier ++ .insert key value lifetime moment :: later))
    (hlater : ∀ deed ∈ later, deed.Spares key) {run : List (Section α β × Instant)}
    (hrun : Spares key
      (({ (empty capacity batch : Cache α β) with sweeper }.enactAll past).enact sec began) run)
    (hmoment : moment ≤ now) (hends : ∀ item ∈ run, item.1.ends item.2 ≤ now) :
    let c := { (empty capacity batch : Cache α β) with sweeper }.enactAll past
    let written := (c.settled.afterAll earlier).after (.insert key value lifetime moment)
    (c.enact sec began).store = written.afterAll later ∧
      Fate key value lifetime moment (written.trail later ++ (c.enact sec began).trail run)
        ((c.enact sec began).enactAll run) now := by
  intro c written
  have hc : c.Consistent :=
    Consistent.enactAll ⟨Store.consistent_empty capacity, fun _ => rfl⟩ past
  have hs : (c.settled.afterAll earlier).Consistent := hc.settled.afterAll earlier
  have hw : written.Consistent := hs.after _
  -- sections of a closed cache have no deeds
  have hopen : c.closed = false := by
    rw [← Bool.not_eq_true]
    intro hclosed
    have hnil := deeds_eq_nil_of_closed hclosed hwrite
    simp at hnil
  have hstore : (c.enact sec began).store = written.afterAll later := by
    rw [enact_eq_after, hwrite, store_after_write hopen, Store.afterAll_append]
    rfl
  refine ⟨hstore, ?_⟩
  have hsection := (hs.stays_insert key value lifetime moment).afterAll hw hlater
  rw [← hstore] at hsection
  refine fate_of_stays (stays_enactAll (hc.enact sec began) hsection hrun) ?_ hmoment ?_
  · intro step hstep
    rcases List.mem_append.mp hstep with hhere | hrest
    · exact (hw.of_mem_trail hhere).1
    · exact ((hc.enact sec began).of_mem_trail hrest).1
  · intro step hstep t hpurges
    rcases List.mem_append.mp hstep with hhere | hrest
    · -- all deeds of the section happen at the moment of the write
      have hmem : ∀ deed ∈ (.insert key value lifetime moment :: later),
          deed.HappensAt (sec.ends began) := by
        intro deed hdeed
        have hmem : deed ∈ (sec.effect c began).deeds := by
          rw [hwrite]
          exact List.mem_append_right earlier hdeed
        exact happensAt_effect hmem
      have hends : moment = sec.ends began := hmem _ List.mem_cons_self
      have hstep := hmem step.2 (List.mem_cons_of_mem _ (hw.of_mem_trail hhere).2)
      rw [hstep.eq_of_purges? hpurges, ← hends]
      exact hmoment
    · obtain ⟨-, item, hitem, hhappens⟩ := (hc.enact sec began).of_mem_trail hrest
      rw [hhappens.eq_of_purges? hpurges]
      exact hends item hitem

/-- The key is hit, swept past and asked for once more by a conditional write, and another key is
evicted; the entry is found until its last millisecond. -/
theorem fate_of_write_before_eviction :
    let past : List (Section Nat Nat × Instant) :=
      [(.perform (.set 5 (some 50) .forever), .clamp 0)]
    let c := { (empty 2 1 : Cache Nat Nat) with sweeper := none }.enactAll past
    let sec : Section Nat Nat := .perform (.setAll [(1, none), (1, some 10)] (.ofMillis 5))
    let run : List (Section Nat Nat × Instant) :=
      [(.perform (.get 1), .clamp 1), (.sweepBatch .asListed, .clamp 2),
        (.perform (.setIfAbsent 1 (some 11) .forever), .clamp 3),
        (.perform (.set 3 (some 30) .forever), .clamp 3)]
    let written := (c.settled.afterAll [.remove 1]).after (.insert 1 10 (.ofMillis 5) (.clamp 1))
    let d := (c.enact sec (.clamp 1)).enactAll run
    d.store.entries.keys = [1, 3] ∧ (d.lookup 1 (.clamp 5)).answer = some 10 ∧
      Fate 1 10 (.ofMillis 5) (.clamp 1) (written.trail [] ++ (c.enact sec (.clamp 1)).trail run) d
        (.clamp 5) := by
  intro past c sec run written d
  have hwrite : sec.effect c (.clamp 1) =
      .write ([.remove 1] ++ .insert 1 10 (.ofMillis 5) (.clamp 1) :: []) := by rfl
  have hrun : (c.enact sec (.clamp 1)).Spares 1 run :=
    ⟨trivial, trivial, fun _ => by decide +kernel, show 3 ≠ 1 by decide, trivial⟩
  refine ⟨?_, ?_, (fate_of_write 2 1 none past hwrite (by simp) hrun (by decide) (by decide)).2⟩
  all_goals
    clear hwrite hrun
    subst d written run sec c past
    cbv

end Cache

end ExpiringCache
