import ExpiringCache.Proofs.Closing
import ExpiringCache.Proofs.Isolation
import ExpiringCache.Proofs.Revision

/-!
# Times at the ends of the clock's range

A deadline is moved back to the last moment that the clock can show, so that it always exists. What
is left until then is a difference that the clock's range may not hold, and nothing moves it.

1. **Deadlines** (`Lifetime.Exact`): where they lie, up to the last moment, and in which order.
2. **What is left** (`Entry.Exact`): where the range holds it, it is positive up to the deadline.
3. **Stored deadlines** (`Store.DatedAs`): each was set by a deed that looked at the clock, so what
   holds of all deadlines set at its readings holds of all that are stored (`DatedAs.enactAll`).
4. **Closed caches** (`ClosesWhole`): they are empty, except while somebody is about to clear them.
5. **Overflow** (`Cache.InRange`): where it happens, for any readings, and that it happens nowhere
   from the epoch on.
-/

namespace ExpiringCache

variable {α β : Type} [Ord α] [Std.TransOrd α]

/-! ## Deadlines -/

/-- An entry written at `now` is over as long after it as its lifetime says, in whole
milliseconds but one at least, or else at the last moment there is. -/
structure Lifetime.Exact (l : Lifetime) (now : Instant) : Prop where
  never_iff : l.deadline now = none ↔ l.ns = 0
  ends : l.ns ≠ 0 → ∃ t, l.deadline now = some t ∧
    t.ms = min 9223372036854775807 (now.ms + max 1 (l.ns.tdiv 1000000))
  ahead : ∀ t, l.deadline now = some t → now.ms ≠ 9223372036854775807 → now < t
  /-- No entry is over earlier for being written later or for a longer lifetime. -/
  mono : 0 < l.ns → ∀ (longer : Lifetime) (later : Instant), l.ns ≤ longer.ns → now ≤ later →
    ∃ t u, l.deadline now = some t ∧ longer.deadline later = some u ∧ t ≤ u

theorem Lifetime.wholeMillis_mono {l m : Lifetime} (hpos : 0 < l.ns) (hle : l.ns ≤ m.ns) :
    l.wholeMillis ≤ m.wholeMillis := by
  rw [wholeMillis, wholeMillis, Int.tdiv_eq_ediv_of_nonneg (by omega),
    Int.tdiv_eq_ediv_of_nonneg (by omega)]
  exact Int.ediv_le_ediv (by decide) hle

theorem Lifetime.exact (l : Lifetime) (now : Instant) : l.Exact now where
  never_iff := deadline_eq_none_iff
  ends h := exists_deadline h now
  ahead t ht hlast := by
    refine lt_deadline ?_ ht
    have hupper := now.upper
    show now.ms < 9223372036854775807
    omega
  mono hpos longer later hle hlater := by
    obtain ⟨t, ht, htms⟩ := exists_deadline (l := l) (by omega) now
    obtain ⟨u, hu, hums⟩ := exists_deadline (l := longer) (by omega) later
    have hmillis := wholeMillis_mono hpos hle
    refine ⟨t, u, ht, hu, ?_⟩
    rw [Instant.le_def] at hlater ⊢
    omega

/-- From the epoch on, an entry is over after it. -/
theorem Lifetime.one_le_deadline {l : Lifetime} {now t : Instant} (hnow : 0 ≤ now.ms)
    (h : l.deadline now = some t) : 1 ≤ t.ms := by
  have hns : l.ns ≠ 0 := by
    rintro hns
    rw [deadline_eq_none_iff.mpr hns] at h
    cases h
  obtain ⟨u, hu, hums⟩ := exists_deadline hns now
  obtain rfl := Option.some.inj (hu.symm.trans h)
  omega

/-! ## What is left -/

namespace Entry

omit [Ord α] [Std.TransOrd α]

/-- Where the range of the clock holds what lies between a moment and the deadline, an entry is
expired or has a positive rest to go, and then it is over. -/
structure Exact (e : Entry β) (deadline now : Instant) : Prop where
  absent_iff : e.timeLeftAt now = .ok .absent ↔ e.isExpiredAt now = true
  millis : e.isExpiredAt now = false →
    ∃ n : Nat, e.timeLeftAt now = .ok (.millis n) ∧ 0 < n ∧ now.ms + n = deadline.ms

variable {e : Entry β} {deadline now : Instant} {fault : Fault}

theorem timeLeftAt_of_fits (he : e.deadline = some deadline)
    (hfits : -9223372036854775808 ≤ deadline.ms - now.ms ∧
      deadline.ms - now.ms ≤ 9223372036854775807) :
    e.timeLeftAt now = .ok (if 0 < deadline.ms - now.ms
      then .millis (deadline.ms - now.ms).toNat else .absent) := by
  simp only [timeLeftAt, he, Instant.since?, if_pos hfits]

theorem exact_of_fits (he : e.deadline = some deadline)
    (hfits : -9223372036854775808 ≤ deadline.ms - now.ms ∧
      deadline.ms - now.ms ≤ 9223372036854775807) : e.Exact deadline now := by
  have hexpired : e.isExpiredAt now = decide (deadline.ms ≤ now.ms) := by
    simp only [isExpiredAt, he]
    rfl
  have hleft := timeLeftAt_of_fits he hfits
  by_cases hahead : 0 < deadline.ms - now.ms
  · have hlive : e.isExpiredAt now = false := hexpired.trans (decide_eq_false (by omega))
    rw [if_pos hahead] at hleft
    refine ⟨?_, fun _ => ⟨_, hleft, ?_, ?_⟩⟩
    · rw [hleft, hlive]
      exact iff_of_false (fun h => by cases h) (fun h => by cases h)
    · omega
    · omega
  · have hdead : e.isExpiredAt now = true := hexpired.trans (decide_eq_true (by omega))
    rw [if_neg hahead] at hleft
    exact ⟨iff_of_true hleft hdead, fun hlive => absurd hdead (by simp [hlive])⟩

/-- The rest of a live entry is positive, so it is too large if the range does not hold it. -/
theorem timeLeftAt_eq_error_iff (hlive : e.isLiveAt now = true) :
    e.timeLeftAt now = .error fault ↔ fault = .overflow .difference ∧
      ∃ t, e.deadline = some t ∧ 9223372036854775807 < t.ms - now.ms := by
  rw [isLiveAt_iff] at hlive
  cases he : e.deadline with
  | none =>
    simp [timeLeftAt, he]
  | some t =>
    have hahead : now.ms < t.ms := hlive t he
    by_cases hfits : t.ms - now.ms ≤ 9223372036854775807
    · rw [timeLeftAt_of_fits he ⟨by omega, hfits⟩]
      simp [hfits]
    · have hfar : t.since? now = none := if_neg fun h => hfits h.2
      simp only [timeLeftAt, he, hfar, Except.error.injEq, Option.some.injEq, exists_eq_left',
        eq_comm (a := fault)]
      exact (and_iff_left (by omega)).symm

end Entry

/-! ## Stored deadlines -/

namespace Store

/-- Every stored deadline is one of the given ones. -/
def DatedAs (s : Store α β) (p : Instant → Prop) : Prop :=
  ∀ (key : α) (value : β) (t : Instant), s.contents[key]? = some (value, some t) → p t

variable {s t : Store α β} {p : Instant → Prop} {now : Instant}

theorem DatedAs.of_contents (h : s.DatedAs p) (heq : t.contents = s.contents) : t.DatedAs p := by
  rw [DatedAs, heq]
  exact h

variable [Std.LawfulEqOrd α]

theorem datedAs_of_no_entries (h : s.entries = ∅) : s.DatedAs p := by
  intro key value t hrow
  rw [getElem?_contents, h] at hrow
  cases hrow

/-- What is left of the entries is dated as all of them were. -/
theorem DatedAs.of_left (h : s.DatedAs p)
    (hleft : ∀ (k : α) (e : Entry β), t.entries[k]? = some e → s.entries[k]? = some e) :
    t.DatedAs p := by
  intro key value u hrow
  rw [getElem?_contents, Option.map_eq_some_iff] at hrow
  obtain ⟨e, he, hcontent⟩ := hrow
  refine h key value u ?_
  rw [getElem?_contents, hleft key e he, Option.map_some, hcontent]

omit [Std.LawfulEqOrd α] in
/-- One more row, dated alike. -/
theorem DatedAs.of_insert (h : s.DatedAs p) {key : α} {value : β} {deadline : Option Instant}
    (heq : t.contents = s.contents.insert key (value, deadline))
    (hnew : ∀ u, deadline = some u → p u) : t.DatedAs p := by
  intro k v u hrow
  rw [heq, Std.ExtTreeMap.getElem?_insert] at hrow
  split at hrow
  · obtain ⟨-, rfl⟩ := Prod.mk.inj (Option.some.inj hrow)
    exact hnew u rfl
  · exact h k v u hrow

/-- A deed leaves deadlines as they are, or sets one at its own reading of the clock. -/
theorem DatedAs.after (h : s.DatedAs p) (hs : s.Consistent) {deed : Deed α β}
    (hnow : deed.HappensAt now)
    (hp : ∀ (l : Lifetime) (u : Instant), l.deadline now = some u → p u) :
    (s.after deed).DatedAs p := by
  cases deed with
  | miss => exact h.of_contents rfl
  | hit key => exact h.of_contents (contents_touch _ key)
  | touch key => exact h.of_contents (contents_touch s key)
  | insert key value lifetime moment =>
    obtain rfl : moment = now := hnow
    have hwrite : (s.write key value lifetime moment).DatedAs p :=
      h.of_insert (contents_write value lifetime) (hp lifetime)
    exact hwrite.of_left (hs.insert key value lifetime moment).entry_of
  | remove key =>
    refine h.of_left fun k e he => ?_
    by_cases hk : k = key
    · subst hk
      simp [Store.after, getElem?_remove_self] at he
    · rwa [Store.after, getElem?_remove_of_ne hk] at he
  | replace key value =>
    cases he : s.entries[key]? with
    | none => rwa [Store.after, replaceValue_of_absent he]
    | some e =>
      refine h.of_insert (contents_replaceValue he value) fun u hu => ?_
      refine h key e.value u ?_
      rw [getElem?_contents, he, Option.map_some, Entry.content, hu]
  | extend key lifetime moment =>
    obtain rfl : moment = now := hnow
    cases hl : s.live? key moment with
    | none => simpa only [Store.after, Store.setLifetime, hl] using h
    | some e => exact h.of_insert (contents_setLifetime hl lifetime) (hp lifetime)
  | purge order moment limit =>
    refine h.of_left fun k e he => ?_
    rcases hs.indexed.getElem?_purgeDue order moment (some limit) k with hsame | ⟨hgone, -⟩
    · rwa [Store.after, hsame] at he
    · rw [Store.after, hgone] at he
      cases he
  | reset => exact datedAs_of_no_entries rfl

theorem DatedAs.afterAll (h : s.DatedAs p) (hs : s.Consistent) {deeds : List (Deed α β)}
    (hnow : ∀ deed ∈ deeds, deed.HappensAt now)
    (hp : ∀ (l : Lifetime) (u : Instant), l.deadline now = some u → p u) :
    (s.afterAll deeds).DatedAs p := by
  induction deeds generalizing s with
  | nil => exact h
  | cons deed deeds ih =>
    rw [List.forall_mem_cons] at hnow
    exact ih (h.after hs hnow.1 hp) (hs.after deed) hnow.2

end Store

namespace Cache

variable {c : Cache α β} {p : Instant → Prop} {key : α} {now : Instant} {fault : Fault}

section Runs

variable [Std.LawfulEqOrd α]

theorem Consistent.datedAs_enact (hc : c.Consistent) (h : c.store.DatedAs p) (sec : Section α β)
    (hp : ∀ (l : Lifetime) (u : Instant), l.deadline (sec.ends now) = some u → p u) :
    (c.enact sec now).store.DatedAs p := by
  have hsettled : c.settled.DatedAs p := h.of_contents contents_settled
  have hnow : ∀ deed ∈ (sec.effect c now).deeds, deed.HappensAt (sec.ends now) :=
    fun _ => happensAt_effect
  have hdeeds := hsettled.afterAll hc.settled hnow hp
  exact hdeeds.of_contents (seen_enact c sec now).1

/-- In a run, what holds of every deadline that is set at a reading of the clock holds of every
deadline that is stored. -/
theorem Consistent.datedAs_enactAll (hc : c.Consistent) (h : c.store.DatedAs p)
    {run : List (Section α β × Instant)}
    (hp : ∀ step ∈ run, ∀ (l : Lifetime) (u : Instant),
      l.deadline (step.1.ends step.2) = some u → p u) :
    (c.enactAll run).store.DatedAs p := by
  induction run generalizing c with
  | nil => exact h
  | cons step run ih =>
    rw [List.forall_mem_cons] at hp
    exact ih (hc.enact step.1 step.2) (hc.datedAs_enact h step.1 hp.1) hp.2

end Runs

/-! ## Closed caches -/

/-- Whoever marks the cache as closed clears it as well, later in the run. -/
def ClosesWhole : List (Section α β × Instant) → Prop
  | [] => True
  | step :: run =>
    (step.1 = .shut → ∃ moment, (.perform .clear, moment) ∈ run) ∧ ClosesWhole run

/-- An open cache is closed by one who clears it at once, or by one who only marks it. -/
theorem spent_or_shut_of_enact {sec : Section α β} (hopen : c.closed = false)
    (h : (c.enact sec now).closed = true) : (c.enact sec now).Spent ∨ sec = .shut := by
  rw [enact_eq_after] at h ⊢
  have hstays : ∀ d : Cache α β, d.closed = c.closed → ¬ d.closed = true := by
    intro d hd
    simp [hd, hopen]
  rcases sec.effect_cases c now with ⟨key, heq⟩ | ⟨deeds, -, heq⟩ | ⟨heq, -⟩ | heq | heq | ⟨-, rfl⟩
  · rw [heq, counts] at h
    split at h
    · exact absurd h (hstays _ (closed_noteHit _ key))
    · exact absurd h (hstays _ rfl)
  · rw [heq, writes, Cache.after, hopen, if_neg Bool.false_ne_true] at h
    exact absurd h (hstays _ closed_settle)
  · rw [heq]
    exact .inl (isShut_shut c).clear
  · rw [heq] at h
    exact absurd h (hstays _ rfl)
  · rw [heq] at h
    exact absurd h (hstays _ rfl)
  · exact .inr rfl

/-- A closed cache is empty once all are done with closing it. -/
theorem spent_enactAll {run : List (Section α β × Instant)} (hwhole : ClosesWhole run)
    (h : c.closed = true →
      c.Spent ∨ c.IsShut ∧ ∃ moment, (Section.perform .clear, moment) ∈ run)
    (hclosed : (c.enactAll run).closed = true) : (c.enactAll run).Spent := by
  induction run generalizing c with
  | nil =>
    rcases h hclosed with hspent | ⟨-, moment, hclear⟩
    · exact hspent
    · cases hclear
  | cons step run ih =>
    rw [enactAll_cons] at hclosed ⊢
    refine ih hwhole.2 (fun hnow => ?_) hclosed
    cases hbefore : c.closed with
    | false =>
      rcases spent_or_shut_of_enact hbefore hnow with hspent | hshut
      · exact .inl hspent
      · refine .inr ⟨?_, hwhole.1 hshut⟩
        rw [hshut]
        exact isShut_shut c
    | true =>
      rcases h hbefore with hspent | ⟨hshut, moment, hclear⟩
      · exact .inl (hspent.enact step.1 step.2)
      · rcases List.mem_cons.mp hclear with rfl | hclear
        · exact .inl hshut.clear
        · refine .inr ⟨?_, moment, hclear⟩
          rw [enact_eq_after]
          exact hshut.after _

/-! ## Overflow -/

/-- The key is live, and its deadline is too far from the reading for the difference to be in
range. -/
def TooFar (c : Cache α β) (key : α) (now : Instant) : Prop :=
  ∃ t, (c.store.live? key now).bind (·.deadline) = some t ∧ 9223372036854775807 < t.ms - now.ms

/-- No clock shows a moment from the epoch on that is too far from a deadline. -/
theorem TooFar.negative (h : c.TooFar key now) : now.ms < 0 := by
  obtain ⟨t, -, hfar⟩ := h
  have := t.upper
  omega

theorem tooFar_iff {e : Entry β} (hlive : c.store.live? key now = some e) :
    c.TooFar key now ↔ ∃ t, e.deadline = some t ∧ 9223372036854775807 < t.ms - now.ms := by
  rw [TooFar, hlive, Option.bind_some]

theorem not_tooFar_of_dead (hdead : c.store.live? key now = none) : ¬ c.TooFar key now := by
  rintro ⟨t, ht, -⟩
  rw [hdead] at ht
  cases ht

theorem timeLeft_eq_error_iff (c : Cache α β) (key : α) (now : Instant) (fault : Fault) :
    (c.timeLeft key now).answer = .error fault ↔
      fault = .overflow .difference ∧ c.TooFar key now := by
  cases hl : c.store.live? key now with
  | none =>
    have hanswer : (c.timeLeft key now).answer = .ok .absent := by simp [timeLeft, reading, hl]
    rw [hanswer]
    exact iff_of_false (fun h => by cases h) fun h => not_tooFar_of_dead hl h.2
  | some e =>
    have hanswer : (c.timeLeft key now).answer = e.timeLeftAt now := by
      simp [timeLeft, reading, hl]
    rw [hanswer, tooFar_iff hl]
    exact Entry.timeLeftAt_eq_error_iff (Store.live?_eq_some_iff.mp hl).2

theorem setLifetime_eq_error_iff [Std.LawfulEqOrd α] (c : Cache α β) (key : α)
    (lifetime : Lifetime) (now : Instant) (fault : Fault) :
    (c.setLifetime key lifetime now).answer = .error fault ↔
      fault = .overflow .difference ∧ c.closed = false ∧ c.TooFar key now := by
  cases hclosed : c.closed with
  | true =>
    have hanswer : (c.setLifetime key lifetime now).answer = .ok .absent := by
      simp [setLifetime, writing, hclosed]
    rw [hanswer]
    exact iff_of_false (fun h => by cases h) fun h => by cases h.2.1
  | false =>
    rw [eq_self, true_and]
    cases hl : c.settled.live? key now with
    | none =>
      have hdead : c.store.live? key now = none := by
        rw [← Option.not_isSome_iff_eq_none, ← isSome_live?_settled, hl]
        exact Bool.false_ne_true
      rw [setLifetime_of_dead hclosed hl]
      exact iff_of_false (fun h => by cases h) fun h => not_tooFar_of_dead hdead h.2
    | some e =>
      -- replaying touches brought the key no nearer to its deadline
      have hcontent : (c.store.live? key now).map Entry.content = some e.content := by
        rw [← Store.live?_contents, ← contents_settled, Store.live?_contents, hl, Option.map_some]
      obtain ⟨f, hf, hsame⟩ := Option.map_eq_some_iff.mp hcontent
      have hdeadline : f.deadline = e.deadline := congrArg Prod.snd hsame
      rw [tooFar_iff hf, hdeadline,
        ← Entry.timeLeftAt_eq_error_iff (Store.live?_eq_some_iff.mp hl).2]
      rw [settled] at hl
      cases hleft : e.timeLeftAt now with
      | error other => simp [setLifetime, writing, hclosed, hl, hleft]
      | ok left => simp [setLifetime, writing, hclosed, hl, hleft]

theorem setLifetime_eq_error_iff_of_spent [Std.LawfulEqOrd α] (h : c.closed = true → c.Spent)
    (key : α) (lifetime : Lifetime) (now : Instant) (fault : Fault) :
    (c.setLifetime key lifetime now).answer = .error fault ↔
      fault = .overflow .difference ∧ c.TooFar key now := by
  rw [setLifetime_eq_error_iff]
  refine and_congr_right fun _ => and_iff_right_of_imp fun hfar => ?_
  rw [← Bool.not_eq_true]
  intro hclosed
  exact not_tooFar_of_dead ((h hclosed).live?_eq key now) hfar

/-- Of all that a cache is asked for, only what is left of a lifetime may be out of range. -/
structure InRange (c : Cache α β) : Prop where
  timeLeft_fails_iff : ∀ key now fault, (c.timeLeft key now).answer = .error fault ↔
    fault = .overflow .difference ∧ c.TooFar key now
  /-- A closed cache that is not yet cleared does not look for the entry, and so has nothing to tell
  of it. -/
  setLifetime_fails_iff : ∀ key lifetime now fault,
    (c.setLifetime key lifetime now).answer = .error fault ↔
      fault = .overflow .difference ∧ c.closed = false ∧ c.TooFar key now
  negative_of_tooFar : ∀ key now, c.TooFar key now → now.ms < 0
  others_succeed : ∀ op now, (∀ key, op ≠ .timeLeft key) →
    (∀ key lifetime, op ≠ .setLifetime key lifetime) →
      ∃ answer, (c.perform op now).answer = .ok answer
  /-- A computing call fails with what its loader failed with, and in no other way. -/
  calls_succeed : ∀ (call : Call α) (now : Instant),
    (∀ fault, (call.look c now).answer ≠ .finished (.error fault)) ∧
    (∀ fault, (call.enter c now).answer ≠ .finished (.error fault)) ∧
    ∀ outcome fault, (call.conclude c outcome now).answer = .error fault ↔ outcome = .error fault

theorem inRange [Std.LawfulEqOrd α] (c : Cache α β) : c.InRange where
  timeLeft_fails_iff := c.timeLeft_eq_error_iff
  setLifetime_fails_iff := c.setLifetime_eq_error_iff
  negative_of_tooFar _ _ := TooFar.negative
  others_succeed op now hleft hset := by
    cases op with
    | timeLeft key => exact absurd rfl (hleft key)
    | setLifetime key lifetime => exact absurd rfl (hset key lifetime)
    | _ => exact ⟨_, rfl⟩
  calls_succeed call now :=
    ⟨call.answer_look_ne c now, call.answer_enter_ne c now,
      fun outcome => call.answer_conclude_eq_error_iff c outcome now⟩

/-- Where the clock was never before the epoch, nothing is out of range as long as it is not. -/
structure FromEpoch (c : Cache α β) : Prop where
  one_le_deadline : ∀ (key : α) (e : Entry β) (t : Instant),
    c.store.entries[key]? = some e → e.deadline = some t → 1 ≤ t.ms
  timeLeft_succeeds : ∀ (key : α) (now : Instant), 0 ≤ now.ms →
    ∃ left, (c.timeLeft key now).answer = .ok left
  setLifetime_succeeds : ∀ (key : α) (lifetime : Lifetime) (now : Instant), 0 ≤ now.ms →
    ∃ left, (c.setLifetime key lifetime now).answer = .ok left

variable [Std.LawfulEqOrd α]

/-- Deadlines that were set from the epoch on come after it. -/
theorem Consistent.fromEpoch (hc : c.Consistent) (h : c.store.DatedAs fun t => 1 ≤ t.ms)
    {run : List (Section α β × Instant)} (hrun : ∀ step ∈ run, 0 ≤ (step.1.ends step.2).ms) :
    (c.enactAll run).FromEpoch := by
  have hdated : (c.enactAll run).store.DatedAs fun t => 1 ≤ t.ms :=
    hc.datedAs_enactAll h fun step hstep _ _ => Lifetime.one_le_deadline (hrun step hstep)
  have hnear : ∀ key now, 0 ≤ now.ms → ¬ (c.enactAll run).TooFar key now :=
    fun key now hnow hfar => absurd hfar.negative (Int.not_lt.mpr hnow)
  constructor
  · intro key e t he hdeadline
    refine hdated key e.value t ?_
    rw [Store.getElem?_contents, he, Option.map_some, Entry.content, hdeadline]
  · intro key now hnow
    cases hanswer : ((c.enactAll run).timeLeft key now).answer with
    | ok left => exact ⟨left, rfl⟩
    | error fault => exact absurd ((timeLeft_eq_error_iff ..).mp hanswer).2 (hnear key now hnow)
  · intro key lifetime now hnow
    cases hanswer : ((c.enactAll run).setLifetime key lifetime now).answer with
    | ok left => exact ⟨left, rfl⟩
    | error fault =>
      exact absurd ((setLifetime_eq_error_iff ..).mp hanswer).2.2 (hnear key now hnow)

/-- **Times in range.** Deadlines are exact up to the last moment that the clock can show, and so is
what is left until then wherever the range holds it. In every state that a run of sections leads
to, whatever the clock showed, a difference is out of range only where the clock is before the epoch
and the key's deadline too far from it, and always there unless the cache is just being closed.
Where the clock never was before the epoch, no stored deadline is the epoch or earlier. -/
theorem inRange_of_reachable (capacity batch : Nat) (sweeper : Option Nat)
    (run : List (Section α β × Instant)) :
    (∀ (l : Lifetime) (now : Instant), l.Exact now) ∧
    (∀ (e : Entry β) (deadline now : Instant), e.deadline = some deadline →
      (-9223372036854775808 ≤ deadline.ms - now.ms ∧
        deadline.ms - now.ms ≤ 9223372036854775807) → e.Exact deadline now) ∧
    ({ (empty capacity batch : Cache α β) with sweeper }.enactAll run).InRange ∧
    (ClosesWhole run → ∀ key lifetime now fault,
      (({ (empty capacity batch : Cache α β) with sweeper }.enactAll run).setLifetime
        key lifetime now).answer = .error fault ↔ fault = .overflow .difference ∧
          ({ (empty capacity batch : Cache α β) with sweeper }.enactAll run).TooFar key now) ∧
    ((∀ step ∈ run, 0 ≤ (step.1.ends step.2).ms) →
      ({ (empty capacity batch : Cache α β) with sweeper }.enactAll run).FromEpoch) := by
  have hstart := consistent_start (α := α) (β := β) capacity batch sweeper
  refine ⟨Lifetime.exact, ?_, inRange _, fun hwhole => ?_, ?_⟩
  · intro e deadline now he hfits
    exact Entry.exact_of_fits he hfits
  · exact setLifetime_eq_error_iff_of_spent (spent_enactAll hwhole fun h => by cases h)
  · intro hrun
    exact hstart.fromEpoch (Store.datedAs_of_no_entries rfl) hrun

/-- An entry that is written at the last moment is over at that moment. The clock goes back to the
epoch, from where its deadline is as far as the range allows, and then before it. -/
theorem inRange_of_last_moment :
    let run : List (Section Nat Nat × Instant) :=
      [(.perform (.set 1 (some 10) (.ofNanos 1)), .latest),
        (.finish ⟨.getOrSetLocked, 2, .ofMillis 7⟩ (.ok (some 20)) (.clamp 0), .clamp 5),
        (.perform (.update 1 (some 11)), .clamp 0)]
    let c := { (empty 2 1 : Cache Nat Nat) with sweeper := none }.enactAll run
    (∀ step ∈ run, 0 ≤ (step.1.ends step.2).ms) ∧
      (c.timeLeft 1 (.clamp 0)).answer = .ok (.millis 9223372036854775807) ∧
      (c.timeLeft 1 (.clamp (-1))).answer = .error (.overflow .difference) ∧
      (c.setLifetime 1 .forever (.clamp (-1))).answer = .error (.overflow .difference) ∧
      c.TooFar 1 (.clamp (-1)) ∧
      (c.timeLeft 2 (.clamp (-1))).answer = .ok (.millis 8) ∧
      (⟨11, some .latest, some 2⟩ : Entry Nat).Exact .latest (.clamp 0) ∧ c.InRange ∧
      c.FromEpoch := by
  intro run c
  have hrun : ∀ step ∈ run, 0 ≤ (step.1.ends step.2).ms := by decide
  have hwhole : ClosesWhole run := by simp [run, ClosesWhole]
  obtain ⟨-, hentry, hrange, hset, hepoch⟩ := inRange_of_reachable 2 1 none run
  have hfails : (c.setLifetime 1 .forever (.clamp (-1))).answer = .error (.overflow .difference) :=
    by decide +kernel
  exact ⟨hrun, by decide +kernel, by decide +kernel, hfails, ((hset hwhole _ _ _ _).mp hfails).2,
    by decide +kernel, hentry _ _ _ rfl (by decide), hrange, hepoch hrun⟩

end Cache

end ExpiringCache
