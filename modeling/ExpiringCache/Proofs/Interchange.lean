import ExpiringCache.Proofs.Eager
import ExpiringCache.Proofs.Errands
import ExpiringCache.Proofs.OneKey
import ExpiringCache.Proofs.Views

/-!
# Values that are given and values that are computed

A key that is not live is given a value in five ways. Two of them answer whether they stored it,
one with a value and one with a loader; three answer with a value, one without a loader, one whose
loader runs under the lock, and one whose loader does not. They look at the key once or twice, count
and touch now or later, and take the lock or do not. If nobody comes between, and the clock stands
still, each of them may take the place of another that answers alike.

1. **Settling first** (`Cache.eager`, `Cache.Sound.eager_enactAll`): with its touches replayed, a
   cache goes through a run as an eager one, if there is room for all touches.
2. **With a loader** (`Cache.answer_compute`, `EagerCache.enactAll_compute`): a call whose loader
   brings a value answers and does what the operation does that is given the value.
3. **Any of the five** (`Variant`): what they answer (`Variant.answer_run`), and what they do to an
   eager cache, which is one section of the plain operation (`Variant.eager_run`).
4. **Visits** (`Visit.Replaces`, `Cache.Sound.hearAll_eq`): if some are replaced by their
   counterparts, nothing else is told of any of them.
-/

namespace ExpiringCache

variable {α β : Type} [Ord α] [Std.TransOrd α]

/-! ## Settling first -/

namespace EagerCache

omit [Std.TransOrd α] in
theorem eq_of_store_eq {p q : EagerCache α β} (hstore : p.store = q.store)
    (hbatch : p.batch = q.batch) (hclosed : p.closed = q.closed) : p = q := by
  cases p
  cases q
  simp_all

end EagerCache

namespace Cache

/-- The eager cache that this one is once its pending touches are replayed. -/
def eager (c : Cache α β) : EagerCache α β := ⟨c.settled, c.batch, c.closed, c.batch_pos⟩

/-- The indices are in order, and whoever closed the cache has emptied it. -/
structure Sound (c : Cache α β) : Prop where
  consistent : c.Consistent
  emptied : c.closed = true → c.Emptied

/-- Every hit of a run finds room for its touch. -/
def Roomy : Cache α β → List (Section α β × Instant) → Prop
  | _, [] => True
  | c, (sec, now) :: run =>
    ((sec.effect c now).isHit = true → c.touches.toList.length < Touches.limit) ∧
      Roomy (c.enact sec now) run

variable [Std.LawfulEqOrd α] {c : Cache α β} {sec : Section α β} {now : Instant}

/-- As hits that come one after the other, the pending touches are all that sets the two apart. -/
theorem Sound.mirrors (h : c.Sound) : Mirrors (c.touches.toList.map .hit) c c.eager where
  left := h.consistent
  right := h.consistent.settled
  closed_eq := rfl
  batch_eq := rfl
  emptied := h.emptied
  contents_eq := contents_settled.symm
  capacity_eq := capacity_settled.symm
  tally_eq := tally_settled.symm
  waiting := by
    refine ⟨[], _, rfl, ?_, ?_⟩
    · intro effect heffect
      obtain ⟨key, -, rfl⟩ := List.mem_map.mp heffect
      rfl
    · rw [List.countP_map]
      exact Nat.le_of_eq (List.countP_eq_length.mpr fun _ _ => rfl).symm
  settled_eq _ := rfl

theorem Sound.enact (h : c.Sound) (hshut : sec ≠ .shut) : (c.enact sec now).Sound where
  consistent := h.consistent.enact sec now
  emptied hclosed' := by
    cases hclosed : c.closed with
    | true => exact (h.emptied hclosed).enact hclosed sec now
    | false => exact emptied_of_closing hclosed hshut hclosed'

/-- With room for its touch, a section does the same whether or not touches are replayed first. -/
theorem Sound.eager_enact (h : c.Sound)
    (hroom : (sec.effect c now).isHit = true → c.touches.toList.length < Touches.limit) :
    (c.enact sec now).eager = c.eager.enact sec now := by
  refine EagerCache.eq_of_store_eq ?_ ?_ ?_
  · exact h.mirrors.settled_enact rfl hroom
  · rw [EagerCache.batch_enact]
    show (c.enact sec now).batch = c.batch
    rw [enact_eq_after, batch_after]
  · rw [EagerCache.closed_enact, ← h.mirrors.effect_eq]
    show (c.enact sec now).closed = _
    rw [enact_eq_after]
    exact closed_after_eq (h.mirrors.indistinct now).closed_eq _

/-- No answer depends on pending touches. -/
theorem Sound.reply_eq (h : c.Sound) (sec : Section α β) (now : Instant) :
    c.reply sec now = c.eager.toCache.reply sec now := by
  have hind := h.mirrors.indistinct now
  -- all but a batch read nothing but the contents, and a batch settles first
  cases sec with
  | perform op => exact congrArg Section.Reply.answered (hind.answer_perform op)
  | look call => exact congrArg Section.Reply.looked (hind.answer_look call)
  | finish call outcome later => simp only [reply, hind.answer_finish call outcome later]
  | sweepBatch order =>
    have hsettled : c.settled = c.eager.toCache.settled := (EagerCache.settled_toCache c.eager).symm
    have hbatch : c.batch = c.eager.toCache.batch := rfl
    simp only [reply, sweepBatch, hbatch]
    exact congrArg Section.Reply.swept (answer_writing hind.closed_eq (by rw [hsettled]))
  | shut => rfl

/-- A run does the same, too. -/
theorem Sound.eager_enactAll (h : c.Sound) {run : List (Section α β × Instant)}
    (hshut : ∀ step ∈ run, step.1 ≠ .shut) (hroomy : c.Roomy run) :
    (c.enactAll run).Sound ∧ (c.enactAll run).eager = c.eager.enactAll run := by
  induction run generalizing c with
  | nil => exact ⟨h, rfl⟩
  | cons step run ih =>
    obtain ⟨hsound, heager⟩ := ih (h.enact (hshut step (by simp)))
      (fun s hs => hshut s (by simp [hs])) hroomy.2
    refine ⟨hsound, heager.trans ?_⟩
    rw [h.eager_enact hroomy.1]
    rfl

end Cache

/-! ## With a loader -/

/-- What is asked: to give a value to a key that is not live. If a loader brings the value, it does
nothing else, and the clock stands still. -/
structure Query (α β : Type) where
  key : α
  value : Option β
  lifetime : Lifetime
  now : Instant

/-- The operation without a loader that answers as the computing one does. -/
def Form.plain (form : Form) (q : Query α β) : Operation α β :=
  match form with
  | setIfAbsent => .setIfAbsent q.key q.value q.lifetime
  | getOrSet | getOrSetLocked => .getOrSet q.key q.value q.lifetime

/-- The answer if the key was not live, and this has been stored. -/
def Form.told (form : Form) (stored : Option β) : Answer α β :=
  match form with
  | setIfAbsent => .flag stored.isSome
  | getOrSet | getOrSetLocked => .value stored

/-- The answer if the key was live, with this value. -/
def Form.found (form : Form) (value : β) : Answer α β :=
  match form with
  | setIfAbsent => .flag false
  | getOrSet | getOrSetLocked => .value (some value)

/-- The call with a loader that brings the value. -/
def Form.call (form : Form) (q : Query α β) : Call α := ⟨form, q.key, q.lifetime⟩

namespace Cache

variable {c : Cache α β} {q : Query α β}

/-- With the key not live, the part under the lock stores what may be stored. -/
theorem deeds_finish_of_dead (hopen : c.closed = false)
    (hdead : c.settled.live? q.key q.now = none) (form : Form) :
    ((form.call q).finishEffect (.ok q.value) c q.now q.now).deeds =
      Deed.putNew q.key q.value q.lifetime q.now := by
  rw [settled] at hdead
  cases form with
  | setIfAbsent | getOrSetLocked =>
    simp [Form.call, Call.finishEffect, writes, hopen, Effect.deeds, Call.lockedDeeds, hdead]
  | getOrSet =>
    -- no lock is taken for a value that may not be stored, and nothing is settled then
    cases hvalue : storable? q.value q.lifetime <;>
      simp [Form.call, Call.finishEffect, Except.map, hvalue, writes, hopen, Effect.deeds,
        Deed.putNew]

/-- A look that finds the key live does all that the operation without a loader would do. -/
theorem deeds_look_of_live {e : Entry β} (hlive : c.store.live? q.key q.now = some e)
    (form : Form) :
    ((form.call q).lookEffect c q.now).deeds = (form.plain q).deeds c.store q.now := by
  cases form <;>
    simp [Form.call, Form.plain, Call.lookEffect, counts, Operation.deeds, hlive, Effect.deeds]

/-- A look that finds nothing does the first part of it. -/
theorem deeds_look_of_dead (hdead : c.store.live? q.key q.now = none) (form : Form) :
    (form.plain q).deeds c.store q.now =
      ((form.call q).lookEffect c q.now).deeds ++
        Deed.putNew q.key q.value q.lifetime q.now := by
  cases form <;>
    simp [Form.call, Form.plain, Call.lookEffect, counts, Operation.deeds, hdead, Effect.deeds]

theorem answer_finish_of_dead (hopen : c.closed = false)
    (hdead : c.settled.live? q.key q.now = none) (form : Form) :
    ((form.call q).finish c (.ok q.value) q.now q.now).answer.1 =
      .ok (form.told (storable? q.value q.lifetime)) := by
  rw [settled] at hdead
  cases form with
  | setIfAbsent | getOrSetLocked =>
    simp [Form.call, Form.told, Call.finish, Call.enter, writing, hopen, hdead, Call.conclude,
      Call.storeLocked, Turn.map, Store.putNew_fst_fst]
  | getOrSet =>
    cases hvalue : storable? q.value q.lifetime with
    | none =>
      simp [Form.call, Form.told, Call.finish, Call.enter, Call.conclude, Call.storeUnlocked,
        hvalue, Turn.map]
    | some value =>
      have hloaded : storable? (some value) q.lifetime = some value :=
        storable?_eq_some_iff.mpr ⟨(storable?_eq_some_iff.mp hvalue).1, rfl⟩
      simp [Form.call, Form.told, Call.finish, Call.enter, Call.conclude, Call.storeUnlocked,
        hvalue, Turn.map, writing, hopen, Store.putNew_fst_fst, hloaded]

theorem answer_plain_of_dead (hopen : c.closed = false)
    (hdead : c.settled.live? q.key q.now = none) (form : Form) :
    (c.perform (form.plain q) q.now).answer =
      .ok (form.told (storable? q.value q.lifetime)) := by
  rw [settled] at hdead
  cases form <;>
    simp [Form.plain, Form.told, perform, setIfAbsent, getOrSet, Turn.map, writing, hopen, hdead,
      Store.putNew_fst_fst]

theorem answer_plain_of_live (hopen : c.closed = false) {e : Entry β}
    (hlive : c.settled.live? q.key q.now = some e) (form : Form) :
    (c.perform (form.plain q) q.now).answer = .ok (form.found e.value) := by
  rw [settled] at hlive
  cases form <;>
    simp [Form.plain, Form.found, perform, setIfAbsent, getOrSet, Turn.map, writing, hopen, hlive]

theorem answer_look_of_live {e : Entry β} (hlive : c.store.live? q.key q.now = some e)
    (form : Form) :
    ((form.call q).look c q.now).answer = .finished (.ok (form.found e.value)) := by
  cases form with
  | setIfAbsent => simp [Form.call, Form.found, Call.look, Turn.map, contains, reading, hlive]
  | getOrSet | getOrSetLocked =>
    simp [Form.call, Form.found, Call.look, Turn.map, answer_lookup, hlive]

/-- A look that finds nothing counts that, if at all, and leaves the call to go on. -/
theorem look_of_unfound (hdead : c.store.live? q.key q.now = none) (form : Form) :
    (((form.call q).look c q.now).answer = .waiting ∨
        ((form.call q).look c q.now).answer = (.loading : Phase α β)) ∧
      ∃ tally, ((form.call q).look c q.now).cache = c.tallied tally := by
  cases form with
  | setIfAbsent =>
    exact ⟨.inl (by simp [Form.call, Call.look, Turn.map, contains, reading, hdead]), c.store.tally,
      rfl⟩
  | getOrSet | getOrSetLocked =>
    refine ⟨by simp [Form.call, Call.look, Turn.map, answer_lookup, hdead], c.store.tally.miss, ?_⟩
    simp [Form.call, Call.look, Turn.map, lookup, hdead, tallied, Tally.lookup]

variable [Std.LawfulEqOrd α]

/-- With and without a loader the answer is the same. -/
theorem answer_compute (hopen : c.closed = false) (form : Form) (q : Query α β) :
    ((form.call q).run c (.ok q.value) q.now q.now q.now).answer.1 =
      (c.perform (form.plain q) q.now).answer := by
  have hsame := value_live?_settled c q.key q.now
  cases hlive : c.store.live? q.key q.now with
  | some e =>
    rw [hlive] at hsame
    obtain ⟨f, hf, hvalue⟩ := Option.map_eq_some_iff.mp hsame
    rw [answer_plain_of_live hopen hf, hvalue]
    simp only [Call.run, answer_look_of_live hlive]
  | none =>
    rw [hlive] at hsame
    have hdead : c.settled.live? q.key q.now = none := Option.map_eq_none_iff.mp hsame
    obtain ⟨hphase, tally, hcache⟩ := look_of_unfound hlive form
    have hsettled : (c.tallied tally).settled.live? q.key q.now = none := by
      rw [settled_tallied]
      exact hdead
    rw [answer_plain_of_dead hopen hdead,
      ← answer_finish_of_dead (c := c.tallied tally) hopen hsettled form]
    rcases hphase with hphase | hphase <;> simp only [Call.run, hphase, hcache]

end Cache

namespace EagerCache

variable {p : EagerCache α β} {q : Query α β}

theorem closed_look (p : EagerCache α β) (call : Call α) (now : Instant) :
    (p.enact (.look call) now).closed = p.closed := by
  rw [closed_enact, ← Cache.enact_eq_after]
  exact Cache.closed_look call p.toCache now

theorem closed_finish (p : EagerCache α β) (call : Call α) (outcome : Except Fault (Option β))
    (now later : Instant) : (p.enact (.finish call outcome later) now).closed = p.closed := by
  rw [closed_enact, ← Cache.enact_eq_after]
  show (call.finish p.toCache outcome now later).cache.closed = p.toCache.closed
  simp only [Call.finish]
  split
  · exact Cache.closed_enter call p.toCache now
  · exact (Cache.closed_conclude call _ outcome later).trans (Cache.closed_enter call p.toCache now)
  · exact (Cache.closed_conclude call _ outcome later).trans (Cache.closed_enter call p.toCache now)

theorem closed_plain (p : EagerCache α β) (form : Form) (q : Query α β) :
    (p.enact (.perform (form.plain q)) q.now).closed = p.closed := by
  rw [closed_enact, ← Cache.enact_eq_after]
  refine Cache.closed_perform ?_ p.toCache q.now
  cases form <;> nofun

/-- What the plain operation does to an open store. -/
theorem store_plain (hopen : p.closed = false) (form : Form) (q : Query α β) :
    (p.enact (.perform (form.plain q)) q.now).store =
      p.store.afterAll ((form.plain q).deeds p.store q.now) := by
  have hopen' : p.toCache.closed = false := hopen
  have hsettle : p.toCache.settle.store = p.store := settled_toCache p
  rw [store_enact]
  cases form <;>
    simp [Section.effect, Form.plain, Operation.effect, Cache.writes, hopen', hsettle, Effect.deeds]

/-- A call with a loader does what the operation without one does: its first look counts, and what
it stores is stored under the lock. -/
theorem enactAll_compute (hopen : p.closed = false) (form : Form) (q : Query α β) :
    p.enactAll (p.toCache.sections (.compute (form.call q) (.ok q.value) q.now q.now q.now)) =
      p.enact (.perform (form.plain q)) q.now := by
  have hlook : (p.enact (.look (form.call q)) q.now).store =
      p.store.afterAll ((form.call q).lookEffect p.toCache q.now).deeds := store_enact p _ q.now
  cases hlive : p.store.live? q.key q.now with
  | some e =>
    -- the look is the whole call
    have hfound := Cache.answer_look_of_live (c := p.toCache) hlive form
    simp only [Cache.sections, hfound]
    show p.enact (.look (form.call q)) q.now = _
    refine eq_of_store_eq ?_ ?_ ?_
    · rw [hlook, store_plain hopen, Cache.deeds_look_of_live (c := p.toCache) hlive]
      rfl
    · rw [batch_enact, batch_enact]
    · rw [closed_look, closed_plain]
  | none =>
    obtain ⟨hphase, -⟩ := Cache.look_of_unfound (c := p.toCache) hlive form
    have hsections : p.toCache.sections
        (.compute (form.call q) (.ok q.value) q.now q.now q.now) =
          [(.look (form.call q), q.now), (.finish (form.call q) (.ok q.value) q.now, q.now)] := by
      rcases hphase with hphase | hphase <;> simp only [Cache.sections, hphase]
    rw [hsections]
    show (p.enact (.look (form.call q)) q.now).enact (.finish (form.call q) (.ok q.value) q.now)
      q.now = _
    -- the look leaves the key as dead as it was
    have hdead :
        (p.enact (.look (form.call q)) q.now).toCache.settled.live? q.key q.now = none := by
      rw [settled_toCache, hlook]
      cases form with
      | setIfAbsent => exact hlive
      | getOrSet | getOrSetLocked =>
        have hmiss : p.toCache.counts q.key q.now = .miss := by simp [Cache.counts, toCache, hlive]
        simp only [Form.call, Call.lookEffect, hmiss]
        exact hlive
    refine eq_of_store_eq ?_ ?_ ?_
    · have hopen' : (p.enact (.look (form.call q)) q.now).toCache.closed = false :=
        (closed_look p _ q.now).trans hopen
      have hplain := Cache.deeds_look_of_dead (c := p.toCache) hlive form
      rw [store_enact, store_plain hopen]
      show Store.afterAll _ ((form.call q).finishEffect (.ok q.value) _ q.now q.now).deeds =
        p.store.afterAll ((form.plain q).deeds p.toCache.store q.now)
      rw [Cache.deeds_finish_of_dead hopen' hdead, hplain, hlook, Store.afterAll_append]
    · rw [batch_enact, batch_enact, batch_enact]
    · rw [closed_finish, closed_look, closed_plain]

end EagerCache

/-! ## Any of the five -/

/-- A way to give a value to a key that is not live. -/
inductive Variant where
  /-- Answers whether it stored the value. -/
  | setIfAbsent
  /-- Answers so, too, and has its value from a loader. -/
  | setIfAbsentFrom
  /-- Answers with the live value, or with the value that it stored. -/
  | getOrSet
  /-- Answers so, too, and its loader runs with no lock held. -/
  | getOrSetFrom
  /-- Answers so, too, and its loader runs under the lock. -/
  | getOrSetLocked
deriving DecidableEq

namespace Variant

/-- It answers with a value, and counts a lookup. -/
def reads : Variant → Bool
  | setIfAbsent | setIfAbsentFrom => false
  | getOrSet | getOrSetFrom | getOrSetLocked => true

/-- It has its value from a loader. -/
def loads : Variant → Bool
  | setIfAbsent | getOrSet => false
  | setIfAbsentFrom | getOrSetFrom | getOrSetLocked => true

/-- The computing operation that answers alike, and is the same one if there is a loader. -/
def form : Variant → Form
  | setIfAbsent | setIfAbsentFrom => .setIfAbsent
  | getOrSet | getOrSetFrom => .getOrSet
  | getOrSetLocked => .getOrSetLocked

/-- What is asked of the cache. -/
def errand (v : Variant) (q : Query α β) : Errand α β :=
  if v.loads then .compute (v.form.call q) (.ok q.value) q.now q.now q.now
  else .perform (v.form.plain q) q.now

/-- One of the five, from beginning to end, with nobody coming between. -/
def run (v : Variant) (q : Query α β) (c : Cache α β) : Turn α β (Except Fault (Answer α β)) :=
  if v.loads then ((v.form.call q).run c (.ok q.value) q.now q.now q.now).map (·.1)
  else c.perform (v.form.plain q) q.now

variable {v w : Variant} {q : Query α β} {c : Cache α β}

omit [Ord α] [Std.TransOrd α] in
theorem plain_eq (h : v.reads = w.reads) (q : Query α β) : v.form.plain q = w.form.plain q := by
  cases v <;> cases w <;> first | rfl | cases h

theorem cache_run (v : Variant) (q : Query α β) (c : Cache α β) :
    (v.run q c).cache = c.enactAll (c.sections (v.errand q)) := by
  rw [← Cache.carry_eq_enactAll, run, errand]
  split <;> rfl

theorem unshut_sections (v : Variant) (q : Query α β) (c : Cache α β) :
    ∀ step ∈ c.sections (v.errand q), step.1 ≠ .shut := by
  intro step hstep hshut
  rw [errand] at hstep
  split at hstep
  case isTrue =>
    simp only [Cache.sections] at hstep
    -- a look, and after it the rest of the call unless it has ended
    split at hstep
    · obtain rfl := List.mem_singleton.mp hstep
      cases hshut
    all_goals
      obtain rfl | rfl := List.mem_pair.mp hstep
      · cases hshut
      · cases hshut
  case isFalse =>
    obtain rfl := List.mem_singleton.mp hstep
    cases hshut

variable [Std.LawfulEqOrd α]

theorem answer_run (hopen : c.closed = false) (v : Variant) (q : Query α β) :
    (v.run q c).answer = (c.perform (v.form.plain q) q.now).answer := by
  rw [run]
  split
  · exact Cache.answer_compute hopen v.form q
  · rfl

/-- The pending touches make no difference to which sections there are. -/
theorem sections_eager (h : c.Sound) (v : Variant) (q : Query α β) :
    c.sections (v.errand q) = c.eager.toCache.sections (v.errand q) := by
  rw [errand]
  split
  · simp only [Cache.sections, (h.mirrors.indistinct q.now).answer_look (v.form.call q)]
  · rfl

omit [Std.LawfulEqOrd α] in
/-- If there is room for one touch there is room for all. -/
theorem roomy_sections (hroom : c.touches.toList.length < Touches.limit) (v : Variant)
    (q : Query α β) : c.Roomy (c.sections (v.errand q)) := by
  rw [errand]
  split
  · -- only the look can be a hit, and it comes first
    refine ⟨fun _ => hroom, ?_⟩
    split
    · trivial
    all_goals
      refine ⟨fun hhit => ?_, trivial⟩
      rw [Section.not_isHit_of_no_lookup rfl] at hhit
      cases hhit
  · exact ⟨fun _ => hroom, trivial⟩

/-- Each of the five leaves what the plain operation leaves of the eager cache. -/
theorem eager_run (h : c.Sound) (hopen : c.closed = false) (v : Variant)
    (hroomy : c.Roomy (c.sections (v.errand q))) :
    (v.run q c).cache.Sound ∧
      (v.run q c).cache.eager = c.eager.enact (.perform (v.form.plain q)) q.now := by
  obtain ⟨hsound, heager⟩ := h.eager_enactAll (v.unshut_sections q c) hroomy
  rw [cache_run]
  refine ⟨hsound, heager.trans ?_⟩
  -- which sections there are is decided by the look, in both caches alike
  rw [sections_eager h, errand]
  split
  · exact EagerCache.enactAll_compute hopen v.form q
  · rfl

end Variant

/-! ## Visits -/

/-- A visit to the cache: a section of some caller, or one of the five as a whole. -/
inductive Visit (α β : Type) where
  | other (sec : Section α β) (now : Instant)
  | ask (v : Variant) (q : Query α β)

namespace Visit

/-- The visit is the same, or another that answers alike takes its place. -/
inductive Replaces : Visit α β → Visit α β → Prop
  | same (visit : Visit α β) : Replaces visit visit
  | counterpart {v w : Variant} (h : v.reads = w.reads) (q : Query α β) :
    Replaces (.ask v q) (.ask w q)

/-- The one section that an eager cache sees of the visit. -/
def plain : Visit α β → Section α β × Instant
  | .other sec now => (sec, now)
  | .ask v q => (.perform (v.form.plain q), q.now)

/-- The sections of a visit. -/
def sections (c : Cache α β) : Visit α β → List (Section α β × Instant)
  | .other sec now => [(sec, now)]
  | .ask v q => c.sections (v.errand q)

omit [Ord α] [Std.TransOrd α] in
theorem Replaces.plain_eq {visit visit' : Visit α β} (h : Replaces visit visit') :
    visit.plain = visit'.plain := by
  cases h with
  | same => rfl
  | counterpart h q => rw [plain, plain, Variant.plain_eq h]

end Visit

namespace Cache

/-- What one visit leaves. -/
def receive (c : Cache α β) : Visit α β → Cache α β
  | .other sec now => c.enact sec now
  | .ask v q => (v.run q c).cache

/-- What visits one after the other leave. -/
def receiveAll (c : Cache α β) (visits : List (Visit α β)) : Cache α β := visits.foldl receive c

/-- What is told of a visit: what its caller is answered, and all that is counted after it. -/
def hear (c : Cache α β) (visit : Visit α β) : Section.Reply α β × Tally :=
  (match visit with
    | .other sec now => c.reply sec now
    | .ask v q => .answered (v.run q c).answer,
    (c.receive visit).store.tally)

/-- What is told of visits one after the other. -/
def hearAll : Cache α β → List (Visit α β) → List (Section.Reply α β × Tally)
  | _, [] => []
  | c, visit :: visits => c.hear visit :: hearAll (c.receive visit) visits

/-- The five find the cache open, and no touch is lost. Whoever else closes the cache clears it
in the same visit. -/
structure Suits (c : Cache α β) (visit : Visit α β) : Prop where
  isOpen : ∀ v q, visit = .ask v q → c.closed = false
  roomy : c.Roomy (visit.sections c)
  unshut : ∀ now, visit ≠ .other .shut now

/-- Every visit of a run suits. -/
def Hosts : Cache α β → List (Visit α β) → Prop
  | _, [] => True
  | c, visit :: visits => c.Suits visit ∧ Hosts (c.receive visit) visits

variable {c : Cache α β} {visit : Visit α β}

/-- With room for a touch, every visit suits an open cache, except for half a closing. -/
theorem Suits.of_room (hopen : c.closed = false) (hroom : c.touches.toList.length < Touches.limit)
    (hshut : ∀ now, visit ≠ .other .shut now) : c.Suits visit where
  isOpen _ _ _ := hopen
  roomy :=
    match visit with
    | .other _ _ => ⟨fun _ => hroom, trivial⟩
    | .ask v q => v.roomy_sections hroom q
  unshut := hshut

/-- A run suits a cache that is open and has room for a touch all the time. -/
theorem hosts_of_room {visits : List (Visit α β)} (hshut : ∀ now, .other .shut now ∉ visits)
    (hroom : ∀ d ∈ visits.scanl receive c,
      d.closed = false ∧ d.touches.toList.length < Touches.limit) : c.Hosts visits := by
  induction visits generalizing c with
  | nil => trivial
  | cons visit visits ih =>
    rw [List.scanl_cons] at hroom
    obtain ⟨hopen, hlimit⟩ := hroom c List.mem_cons_self
    refine ⟨.of_room hopen hlimit ?_, ih (fun now hmem => hshut now (.tail _ hmem)) ?_⟩
    · rintro now rfl
      exact hshut now List.mem_cons_self
    · exact fun d hd => hroom d (.tail _ hd)

variable [Std.LawfulEqOrd α] {d : Cache α β}

/-- A visit does to the eager cache what its one section does, and nothing else is told of it. -/
theorem Sound.receive (h : c.Sound) (hvisit : c.Suits visit) :
    (c.receive visit).Sound ∧ (c.receive visit).eager = c.eager.enact visit.plain.1 visit.plain.2 ∧
      c.hear visit = (c.eager.toCache.reply visit.plain.1 visit.plain.2,
        (c.eager.enact visit.plain.1 visit.plain.2).store.tally) := by
  have htally : ∀ p : EagerCache α β, (c.receive visit).eager = p →
      (c.receive visit).store.tally = p.store.tally := by
    rintro p rfl
    exact tally_settled.symm
  cases visit with
  | other sec now =>
    have hshut : sec ≠ .shut := by
      rintro rfl
      exact hvisit.unshut now rfl
    have heager := h.eager_enact hvisit.roomy.1
    refine ⟨h.enact hshut, heager, ?_⟩
    simp only [hear, h.reply_eq sec now, htally _ heager, Visit.plain]
  | ask v q =>
    have hopen := hvisit.isOpen v q rfl
    obtain ⟨hsound, heager⟩ := v.eager_run h hopen hvisit.roomy
    refine ⟨hsound, heager, ?_⟩
    have hreply : Section.Reply.answered (v.run q c).answer =
        c.eager.toCache.reply (.perform (v.form.plain q)) q.now := by
      rw [← h.reply_eq, Variant.answer_run hopen]
      rfl
    simp only [hear, hreply, htally _ heager, Visit.plain]

/-- If visits are replaced by their counterparts, the same is told of them, and the same is left. -/
theorem Sound.hearAll_eq (hc : c.Sound) (hd : d.Sound) (heager : c.eager = d.eager)
    {visits visits' : List (Visit α β)} (hvisits : List.Forall₂ Visit.Replaces visits visits')
    (hosts : c.Hosts visits) (hosts' : d.Hosts visits') :
    c.hearAll visits = d.hearAll visits' ∧
      (c.receiveAll visits).eager = (d.receiveAll visits').eager := by
  -- the two runs may have different touches pending, but they share their eager cache
  induction hvisits generalizing c d with
  | nil => exact ⟨rfl, heager⟩
  | cons hvisit _ ih =>
    obtain ⟨hcsound, hceager, hctold⟩ := hc.receive hosts.1
    obtain ⟨hdsound, hdeager, hdtold⟩ := hd.receive hosts'.1
    have hnext := hceager.trans ((by rw [heager, hvisit.plain_eq] : _ = _).trans hdeager.symm)
    obtain ⟨htold, hleft⟩ := ih hcsound hdsound hnext hosts.2 hosts'.2
    refine ⟨?_, hleft⟩
    rw [hearAll, hearAll, hctold, hdtold, htold, heager, hvisit.plain_eq]

/-- The variants that answer alike are interchangeable, now and in any run from now on. -/
structure Interchangeable (c : Cache α β) : Prop where
  /-- With room for a touch, they answer the same. -/
  answer_eq : c.touches.toList.length < Touches.limit → ∀ v w : Variant, v.reads = w.reads →
    ∀ q : Query α β, (v.run q c).answer = (w.run q c).answer
  /-- They leave the same entries, indices and counters, once all touches are replayed. -/
  settled_eq : c.touches.toList.length < Touches.limit → ∀ v w : Variant, v.reads = w.reads →
    ∀ q : Query α β, (v.run q c).cache.settled = (w.run q c).cache.settled
  /-- Who takes some for others is told the same of every visit. -/
  told_eq : ∀ visits visits' : List (Visit α β), List.Forall₂ Visit.Replaces visits visits' →
    c.Hosts visits → c.Hosts visits' → c.hearAll visits = c.hearAll visits'
  /-- And finds the same in the end. -/
  left_eq : ∀ visits visits' : List (Visit α β), List.Forall₂ Visit.Replaces visits visits' →
    c.Hosts visits → c.Hosts visits' →
      (c.receiveAll visits).settled = (c.receiveAll visits').settled

theorem Sound.interchangeable (h : c.Sound) (hopen : c.closed = false) : c.Interchangeable where
  answer_eq _ v w hreads q := by
    rw [Variant.answer_run hopen, Variant.answer_run hopen, Variant.plain_eq hreads]
  settled_eq hroom v w hreads q := by
    obtain ⟨-, hv⟩ := v.eager_run h hopen (v.roomy_sections hroom q)
    obtain ⟨-, hw⟩ := w.eager_run h hopen (w.roomy_sections hroom q)
    rw [← Variant.plain_eq hreads, ← hv] at hw
    exact congrArg EagerCache.store hw.symm
  told_eq _ _ hvisits hosts hosts' := (h.hearAll_eq h rfl hvisits hosts hosts').1
  left_eq _ _ hvisits hosts hosts' :=
    congrArg EagerCache.store (h.hearAll_eq h rfl hvisits hosts hosts').2

/-- In every open state that a run of sections leads to, a value that a loader brings and a value
that is given make no difference. -/
theorem interchangeable_of_reachable (capacity batch : Nat) (sweeper : Option Nat)
    (run : List (Section α β × Instant))
    (hopen : ({ (empty capacity batch : Cache α β) with sweeper }.enactAll run).closed = false) :
    ({ (empty capacity batch : Cache α β) with sweeper }.enactAll run).Interchangeable := by
  refine Sound.interchangeable ⟨(consistent_start capacity batch sweeper).enactAll run, ?_⟩ hopen
  intro hclosed
  rw [hopen] at hclosed
  cases hclosed

/-- The cache is full, the entry of one key has expired, and a hit of the other is pending. A value
is given to the expired key, to the live one and to a new one, and none to the key that is evicted
on the way. -/
theorem interchangeable_of_expired_key :
    let run : List (Section Nat Nat × Instant) :=
      [(.perform (.set 1 (some 5) (.ofMillis 3)), .clamp 0),
        (.perform (.set 2 (some 6) .forever), .clamp 1), (.perform (.get 2), .clamp 2)]
    let c := { (empty 2 1 : Cache Nat Nat) with sweeper := some 0 }.enactAll run
    let expired : Query Nat Nat := ⟨1, some 7, .ofMillis 9, .clamp 5⟩
    let live : Query Nat Nat := ⟨2, some 8, .forever, .clamp 6⟩
    let absent : Query Nat Nat := ⟨3, some 9, .forever, .clamp 7⟩
    let evicted : Query Nat Nat := ⟨2, none, .forever, .clamp 8⟩
    let visits : List (Visit Nat Nat) :=
      [.ask .getOrSet expired, .ask .getOrSetFrom live, .other (.perform (.get 1)) (.clamp 6),
        .ask .setIfAbsent absent, .ask .getOrSetLocked evicted]
    let visits' : List (Visit Nat Nat) :=
      [.ask .getOrSetLocked expired, .ask .getOrSet live, .other (.perform (.get 1)) (.clamp 6),
        .ask .setIfAbsentFrom absent, .ask .getOrSetFrom evicted]
    c.closed = false ∧ c.touches.toList.length = 1 ∧ List.Forall₂ Visit.Replaces visits visits' ∧
      c.Hosts visits ∧ c.Hosts visits' ∧ c.hearAll visits = c.hearAll visits' ∧
      (c.receiveAll visits).store.recency.toList = [1, 3] := by
  intro run c expired live absent evicted visits visits'
  have hopen : c.closed = false := by decide +kernel
  have hvisits : List.Forall₂ Visit.Replaces visits visits' :=
    .cons (.counterpart (by decide) _) <| .cons (.counterpart (by decide) _) <|
      .cons (.same _) <| .cons (.counterpart (by decide) _) <|
      .cons (.counterpart (by decide) _) .nil
  have hosts : c.Hosts visits := by
    refine hosts_of_room (by simp [visits]) (of_decide_eq_true ?_)
    clear hopen hvisits
    subst visits' visits evicted absent live expired c run
    cbv
  have hosts' : c.Hosts visits' := by
    refine hosts_of_room (by simp [visits']) (of_decide_eq_true ?_)
    clear hopen hvisits hosts
    subst visits' visits evicted absent live expired c run
    cbv
  refine ⟨hopen, by decide +kernel, hvisits, hosts, hosts', ?_, ?_⟩
  · exact (interchangeable_of_reachable 2 1 (some 0) run hopen).told_eq _ _ hvisits hosts hosts'
  · clear hopen hvisits hosts hosts'
    subst visits' visits evicted absent live expired c run
    cbv

end Cache

end ExpiringCache
