import ExpiringCache.Proofs.OneKey
import ExpiringCache.Proofs.Views

/-!
# Writing only where nothing is live

Four operations write a key only if it is not live. Two are given the value, two a loader that runs
under the lock; two answer whether they wrote, two with a value. All of them leave a live entry as
it is, and none of them deletes its key: where there is nothing to store, an entry that has expired
stays for a sweep to count.

1. **Attempts** (`Attempt`): the four operations as one, the part under the lock (`Attempt.settle`)
   and the whole (`Attempt.run`).
2. **Under the lock** (`settle_of_live`, `settle_of_dead`): the one check decides everything.
3. **What an attempt may do** (`Attempt.Behaves`): in its three cases, whole or from the lock on.
-/

namespace ExpiringCache

/-- An operation that writes a key only if it is not live. -/
inductive Attempt (β : Type) where
  | setIfAbsent (value : Option β)
  | getOrSet (value : Option β)
  /-- The one that answers whether it stored what its loader brought. -/
  | setIfAbsentFrom (outcome : Except Fault (Option β))
  /-- The one that answers with what its loader brought. -/
  | getOrSetLocked (outcome : Except Fault (Option β))

namespace Attempt

variable {α β : Type}

/-- It has a loader, and looks at the key before it takes the lock. -/
def loads : Attempt β → Bool
  | setIfAbsent _ | getOrSet _ => false
  | setIfAbsentFrom _ | getOrSetLocked _ => true

/-- What is there to be stored, or the fault of the loader. -/
def outcome : Attempt β → Except Fault (Option β)
  | setIfAbsent value | getOrSet value => .ok value
  | setIfAbsentFrom outcome | getOrSetLocked outcome => outcome

/-- The value that is there to be stored. A loader that failed has brought none. -/
def loaded : Attempt β → Option β
  | setIfAbsent value | getOrSet value => value
  | setIfAbsentFrom (.ok value) | getOrSetLocked (.ok value) => value
  | setIfAbsentFrom (.error _) | getOrSetLocked (.error _) => none

/-- The answer if the key is live, with this value. -/
def found : Attempt β → β → Answer α β
  | setIfAbsent _, _ | setIfAbsentFrom _, _ => .flag false
  | getOrSet _, value | getOrSetLocked _, value => .value (some value)

/-- The answer if the key is not live, and this has been stored. -/
def told : Attempt β → Option β → Answer α β
  | setIfAbsent _, stored | setIfAbsentFrom _, stored => .flag stored.isSome
  | getOrSet _, stored | getOrSetLocked _, stored => .value stored

/-- The moments at which a whole attempt looks at the key. -/
def checks (a : Attempt β) (first now : Instant) : List Instant :=
  if a.loads then [first, now] else [now]

/-- The moment at which something is stored: after the loader, if there is one. -/
def moment (a : Attempt β) (now later : Instant) : Instant := if a.loads then later else now

/-- The counters when the key has not been found live under the lock. -/
def missed : Attempt β → Tally → Tally
  | getOrSet _, tally => tally.miss
  | setIfAbsent _, tally | setIfAbsentFrom _, tally | getOrSetLocked _, tally => tally

/-- The counters when the key has not been found live at all: who locks after a first look has
counted that look. -/
def missedAll : Attempt β → Tally → Tally
  | getOrSet _, tally | getOrSetLocked _, tally => tally.miss
  | setIfAbsent _, tally | setIfAbsentFrom _, tally => tally

variable [Ord α] [Std.TransOrd α]

/-- The part of an attempt under the lock, which is taken at `now`; a loader ends at `later`.
Answers also whether the loader ran. -/
def settle (a : Attempt β) (key : α) (lifetime : Lifetime) (c : Cache α β)
    (now later : Instant) : Turn α β (Except Fault (Answer α β) × Bool) :=
  match a with
  | setIfAbsent value => (c.perform (.setIfAbsent key value lifetime) now).map (·, false)
  | getOrSet value => (c.perform (.getOrSet key value lifetime) now).map (·, false)
  | setIfAbsentFrom outcome => (Call.mk .setIfAbsent key lifetime).finish c outcome now later
  | getOrSetLocked outcome => (Call.mk .getOrSetLocked key lifetime).finish c outcome now later

/-- A whole attempt. Who has a loader looks at the key at `first`, before it takes the lock. -/
def run (a : Attempt β) (key : α) (lifetime : Lifetime) (c : Cache α β)
    (first now later : Instant) : Turn α β (Except Fault (Answer α β) × Bool) :=
  match a with
  | setIfAbsent _ | getOrSet _ => a.settle key lifetime c now later
  | setIfAbsentFrom outcome =>
    (Call.mk .setIfAbsent key lifetime).run c outcome first now later
  | getOrSetLocked outcome =>
    (Call.mk .getOrSetLocked key lifetime).run c outcome first now later

end Attempt

variable {α β : Type} [Ord α] [Std.TransOrd α]

theorem storable?_none (lifetime : Lifetime) : storable? (none : Option β) lifetime = none := by
  simp [storable?]

namespace Store

variable {s : Store α β} {key : α} {lifetime : Lifetime} {now : Instant}

theorem putNew_of_unstorable {value : Option β} (h : storable? value lifetime = none) :
    s.putNew key value lifetime now = ((none, []), s) := by
  simp only [putNew, h]

theorem putNew_of_storable {value : Option β} {stored : β}
    (h : storable? value lifetime = some stored) :
    (s.putNew key value lifetime now).2 = (s.insert key stored lifetime now).2 := by
  simp only [putNew, h]

end Store

namespace Attempt

open Cache

variable {c : Cache α β} {a : Attempt β} {key : α} {lifetime : Lifetime} {now later : Instant}

/-! ## Under the lock -/

/-- With the key not live, what can be stored is stored, and nothing else is done. -/
theorem settle_of_dead (a : Attempt β) (lifetime : Lifetime) (later : Instant)
    (hopen : c.closed = false) (hdead : c.settled.live? key now = none) :
    (a.settle key lifetime c now later).answer =
        (a.outcome.map fun value => a.told (storable? value lifetime), a.loads) ∧
      (a.settle key lifetime c now later).cache =
        { c.settle with
          store := ({ c.settled with tally := a.missed c.settled.tally }.putNew key a.loaded
            lifetime (a.moment now later)).2 } := by
  have hlive : c.settle.store.live? key now = none := hdead
  cases a with
  | setIfAbsent value =>
    simp only [settle, Cache.perform, Cache.setIfAbsent, Turn.map, writing, hopen, hlive,
      Bool.false_eq_true, if_false, Option.isSome_none, Function.comp]
    exact ⟨by rw [Store.putNew_fst_fst]; rfl, rfl⟩
  | getOrSet value =>
    simp only [settle, Cache.perform, Cache.getOrSet, Turn.map, writing, hopen, hlive,
      Bool.false_eq_true, if_false, Function.comp]
    exact ⟨by rw [Store.putNew_fst_fst]; rfl, rfl⟩
  | setIfAbsentFrom outcome | getOrSetLocked outcome =>
    simp only [settle, Call.finish, Call.enter, writing, hopen, hlive, Bool.false_eq_true,
      if_false, Option.isSome_none]
    cases outcome with
    | error fault =>
      refine ⟨rfl, ?_⟩
      simp only [loaded, Store.putNew_of_unstorable (storable?_none lifetime)]
      rfl
    | ok value =>
      simp only [Call.conclude, Call.storeLocked, Turn.map, Function.comp]
      exact ⟨by rw [Store.putNew_fst_fst]; rfl, rfl⟩

variable [Std.LawfulEqOrd α]

/-- With the key live, nobody's value or deadline changes, and no loader runs. -/
theorem settle_of_live (a : Attempt β) (lifetime : Lifetime) (later : Instant)
    (hopen : c.closed = false) {e : Entry β} (hlive : c.settled.live? key now = some e) :
    (a.settle key lifetime c now later).answer = (.ok (a.found e.value), false) ∧
      (a.settle key lifetime c now later).cache.store.contents = c.settled.contents := by
  have hlive : c.settle.store.live? key now = some e := hlive
  cases a with
  | setIfAbsent value =>
    simp only [settle, Cache.perform, Cache.setIfAbsent, Turn.map, writing, hopen, hlive]
    exact ⟨rfl, rfl⟩
  | getOrSet value =>
    simp only [settle, Cache.perform, Cache.getOrSet, Turn.map, writing, hopen, hlive]
    exact ⟨rfl, Store.contents_touch _ key⟩
  | setIfAbsentFrom outcome =>
    simp only [settle, Call.finish, Call.enter, writing, hopen, hlive]
    exact ⟨rfl, rfl⟩
  | getOrSetLocked outcome =>
    simp only [settle, Call.finish, Call.enter, writing, hopen, hlive]
    exact ⟨rfl, Store.contents_touch _ key⟩

/-! ## What an attempt may do -/

/-- What becomes of the cache `c` when an attempt looks at the key at the moments `checks`, stores
at `moment`, and has counted its lookups up to `counted`. -/
structure Behaves (a : Attempt β) (key : α) (lifetime : Lifetime) (c : Cache α β)
    (checks : List Instant) (moment : Instant) (counted : Tally)
    (turn : Turn α β (Except Fault (Answer α β) × Bool)) : Prop where
  /-- Where a check finds the key live, no loader runs, and every entry keeps its value and its
  deadline. -/
  found : ∀ t ∈ checks, ∀ e, c.store.live? key t = some e →
    turn.answer = (.ok (a.found e.value), false) ∧
      turn.cache.store.contents = c.store.contents
  /-- Where nothing can be stored, pending touches are replayed and lookups counted, no more. What
  the key had, expired, it still has. -/
  declined : (∀ t ∈ checks, c.store.live? key t = none) → storable? a.loaded lifetime = none →
    turn.answer = (a.outcome.map fun _ => a.told none, a.loads) ∧
      turn.cache = { c.settle with store := { c.settled with tally := counted } } ∧
      turn.cache.store.contents = c.store.contents
  /-- Otherwise the value is inserted, and comes last in the order of use. Only an entry that has a
  deadline may be expired at once, and only where the clock can show no later moment. -/
  stored : (∀ t ∈ checks, c.store.live? key t = none) → ∀ value,
    storable? a.loaded lifetime = some value →
      turn.answer = (.ok (a.told (some value)), a.loads) ∧
        turn.cache = { c.settle with
          store := ({ c.settled with tally := counted }.insert key value lifetime moment).2 } ∧
        (lifetime.deadline moment = none ∨ moment < .latest →
          turn.cache.store.JustWritten key value lifetime moment)

variable {first moment : Instant} {checks : List Instant} {counted tally : Tally}
  {turn : Turn α β (Except Fault (Answer α β) × Bool)}

omit [Ord α] [Std.TransOrd α] [Std.LawfulEqOrd α] in
theorem outcome_map {γ : Type} (f : Option β → γ) :
    a.outcome.map f = a.outcome.map fun _ => f a.loaded := by
  cases a with
  | setIfAbsent | getOrSet => rfl
  | setIfAbsentFrom outcome | getOrSetLocked outcome => cases outcome <;> rfl

omit [Ord α] [Std.TransOrd α] [Std.LawfulEqOrd α] in
/-- What can be stored does not come from a loader that failed. -/
theorem outcome_of_storable {value : β} (h : storable? a.loaded lifetime = some value) :
    a.outcome = .ok a.loaded := by
  cases a with
  | setIfAbsent | getOrSet => rfl
  | setIfAbsentFrom outcome | getOrSetLocked outcome =>
    cases outcome with
    | ok value => rfl
    | error fault =>
      rw [loaded, storable?_none] at h
      cases h

theorem behaves_settle (a : Attempt β) (key : α) (lifetime : Lifetime) (now later : Instant)
    (h : c.Consistent) (hopen : c.closed = false) :
    a.Behaves key lifetime c [now] (a.moment now later) (a.missed c.store.tally)
      (a.settle key lifetime c now later) := by
  have hdead : (∀ t ∈ [now], c.store.live? key t = none) → c.settled.live? key now = none := by
    intro hchecks
    have hnone := value_live?_settled c key now
    rw [hchecks now (List.mem_singleton_self now)] at hnone
    exact Option.map_eq_none_iff.mp hnone
  refine ⟨fun t ht e he => ?_, fun hchecks hnone => ?_, fun hchecks value hvalue => ?_⟩
  · obtain rfl := List.mem_singleton.mp ht
    have hsome := value_live?_settled c key t
    rw [he] at hsome
    obtain ⟨f, hf, hsame⟩ := Option.map_eq_some_iff.mp hsome
    obtain ⟨hanswer, hcontents⟩ := settle_of_live a lifetime later hopen hf
    exact ⟨by rw [hanswer, hsame], hcontents.trans contents_settled⟩
  · obtain ⟨hanswer, hcache⟩ := settle_of_dead a lifetime later hopen (hdead hchecks)
    rw [Store.putNew_of_unstorable hnone, tally_settled] at hcache
    refine ⟨?_, hcache, ?_⟩
    · rw [hanswer, outcome_map, hnone]
    · rw [hcache]
      exact contents_settled
  · obtain ⟨hanswer, hcache⟩ := settle_of_dead a lifetime later hopen (hdead hchecks)
    rw [Store.putNew_of_storable hvalue, tally_settled] at hcache
    refine ⟨?_, hcache, fun hlasts => ?_⟩
    · rw [hanswer, outcome_of_storable hvalue, Except.map, hvalue]
    · rw [hcache]
      exact (h.settled.tallied (a.missed c.store.tally)).justWritten_insert hlasts

/-! ## The first look -/

omit [Std.LawfulEqOrd α] in
/-- A first look that finds nothing leaves the decision to the second. -/
theorem Behaves.of_dead (h : a.Behaves key lifetime c [now] moment counted turn)
    (hdead : c.store.live? key first = none) :
    a.Behaves key lifetime c [first, now] moment counted turn := by
  refine ⟨fun t ht e he => ?_, fun hchecks => ?_, fun hchecks => ?_⟩
  · rcases List.mem_cons.mp ht with rfl | hnow
    · rw [hdead] at he
      cases he
    · exact h.found t hnow e he
  · exact h.declined fun t ht => hchecks t (List.mem_cons_of_mem _ ht)
  · exact h.stored fun t ht => hchecks t (List.mem_cons_of_mem _ ht)

omit [Std.LawfulEqOrd α] in
/-- A first look that finds the key live decides everything. -/
theorem behaves_of_live {e : Entry β} (hlive : c.store.live? key first = some e)
    (hanswer : turn.answer = (.ok (a.found e.value), false))
    (hcontents : turn.cache.store.contents = c.store.contents) :
    a.Behaves key lifetime c [first, now] moment counted turn := by
  have hnever : ¬ ∀ t ∈ [first, now], c.store.live? key t = none := by
    intro hchecks
    rw [hchecks first (List.mem_cons_self ..)] at hlive
    cases hlive
  refine ⟨fun t _ f hf => ?_, fun hchecks => absurd hchecks hnever,
    fun hchecks => absurd hchecks hnever⟩
  have hsame := (Store.live?_eq_some_iff.mp hlive).1.symm.trans (Store.live?_eq_some_iff.mp hf).1
  cases Option.some.inj hsame
  exact ⟨hanswer, hcontents⟩

omit [Std.LawfulEqOrd α] in
/-- It makes no difference which lookups were counted before. -/
theorem Behaves.of_tallied
    (h : a.Behaves key lifetime (c.tallied tally) checks moment counted turn) :
    a.Behaves key lifetime c checks moment counted turn := by
  have hsettle := settle_tallied c tally
  have hsettled := settled_tallied (c := c) tally
  refine ⟨h.found, fun hchecks hnone => ?_, fun hchecks value hvalue => ?_⟩
  · have hdeclined := h.declined hchecks hnone
    rwa [hsettled, hsettle] at hdeclined
  · have hstored := h.stored hchecks value hvalue
    rwa [hsettled, hsettle] at hstored

theorem behaves_run (a : Attempt β) (key : α) (lifetime : Lifetime) (first now later : Instant)
    (h : c.Consistent) (hopen : c.closed = false) :
    a.Behaves key lifetime c (a.checks first now) (a.moment now later)
      (a.missedAll c.store.tally) (a.run key lifetime c first now later) := by
  cases a with
  | setIfAbsent | getOrSet => exact behaves_settle _ key lifetime now later h hopen
  | setIfAbsentFrom outcome =>
    cases hfirst : c.store.live? key first with
    | some e =>
      have hrun : (setIfAbsentFrom outcome).run key lifetime c first now later =
          ⟨c, (.ok (.flag false), false), []⟩ := by
        simp [run, Call.run, Call.look, Turn.map, contains, reading, hfirst]
      rw [hrun]
      exact behaves_of_live hfirst rfl rfl
    | none =>
      have hsettled := (behaves_settle (.setIfAbsentFrom outcome) key lifetime now later h
        hopen).of_dead hfirst
      simp only [run, Call.run, Call.look, Turn.map, contains, reading, hfirst]
      exact ⟨hsettled.found, hsettled.declined, hsettled.stored⟩
  | getOrSetLocked outcome =>
    cases hfirst : c.store.live? key first with
    | some e =>
      have hanswer : ((Call.mk .getOrSetLocked key lifetime).look c first).answer =
          .finished (.ok (.value (some e.value))) := by
        simp [Call.look, Turn.map, answer_lookup, hfirst]
      simp only [run, Call.run, hanswer]
      exact behaves_of_live hfirst rfl (contents_look _ c first)
    | none =>
      -- the look has counted the miss, and nothing is counted under the lock
      have hmissed := behaves_settle (.getOrSetLocked outcome) key lifetime now later
        (h.after .miss) hopen
      have hsettled := hmissed.of_tallied.of_dead hfirst
      simp only [run, Call.run, Call.look, Turn.map, lookup, hfirst]
      exact ⟨hsettled.found, hsettled.declined, hsettled.stored⟩

/-! ## Every attempt -/

/-- Take an open cache that some run has led to. Whatever key is tried, with whatever value, loader
and lifetime, and whatever the clock shows, before, during and after the loader: an attempt that
finds the key live does no more than count that; one that finds it not live, and has nothing to
store, leaves every entry, deadline and place in the order of use as it was, even where the key has
an entry that has expired; any other stores its value, with a lifetime counted from the end of the
loader, and makes it the last one used. (At the last moment that the clock can show there is none
left for a deadline to come; an entry that has one is then expired as it is inserted.) The part
under the lock does so by itself, too, whatever others did between the first look and the lock. -/
theorem behaves_of_reachable (capacity batch : Nat) (sweeper : Option Nat)
    (past : List (Section α β × Instant)) (a : Attempt β) (key : α) (lifetime : Lifetime)
    (first now later : Instant) :
    let c : Cache α β := { Cache.empty capacity batch with sweeper }.enactAll past
    c.closed = false →
      a.Behaves key lifetime c (a.checks first now) (a.moment now later)
          (a.missedAll c.store.tally) (a.run key lifetime c first now later) ∧
        a.Behaves key lifetime c [now] (a.moment now later) (a.missed c.store.tally)
          (a.settle key lifetime c now later) := by
  intro c hopen
  have hc : c.Consistent := (consistent_start capacity batch sweeper).enactAll past
  exact ⟨behaves_run a key lifetime first now later hc hopen,
    behaves_settle a key lifetime now later hc hopen⟩

/-- The cache is full, and the entry of one key has expired. A loader that fails leaves it there,
and one that brings something replaces it; the other key, which is live, is not written. -/
theorem behaves_of_expired_key :
    let fault : Fault := .loader ⟨"refused", []⟩
    let past : List (Section Nat Nat × Instant) :=
      [(.perform (.set 1 (some 5) (.ofMillis 3)), .clamp 0),
        (.perform (.set 2 (some 6) .forever), .clamp 1), (.perform (.get 1), .clamp 2)]
    let c : Cache Nat Nat := { Cache.empty 2 1 with sweeper := some 0 }.enactAll past
    let failing : Attempt Nat := .setIfAbsentFrom (.error fault)
    let loading : Attempt Nat := .getOrSetLocked (.ok (some 10))
    let late : Attempt Nat := .getOrSet (some 20)
    c.closed = false ∧
      failing.Behaves 1 (.ofMillis 9) c [.clamp 5, .clamp 6] (.clamp 8) c.store.tally
        (failing.run 1 (.ofMillis 9) c (.clamp 5) (.clamp 6) (.clamp 8)) ∧
      (failing.run 1 (.ofMillis 9) c (.clamp 5) (.clamp 6) (.clamp 8)).answer =
        (.error fault, true) ∧
      loading.Behaves 1 (.ofMillis 9) c [.clamp 5, .clamp 6] (.clamp 8) c.store.tally.miss
        (loading.run 1 (.ofMillis 9) c (.clamp 5) (.clamp 6) (.clamp 8)) ∧
      (loading.run 1 (.ofMillis 9) c (.clamp 5) (.clamp 6) (.clamp 8)).answer =
        (.ok (.value (some 10)), true) ∧
      late.Behaves 2 .forever c [.clamp 6] (.clamp 6) c.store.tally.miss
        (late.run 2 .forever c (.clamp 5) (.clamp 6) (.clamp 8)) ∧
      (late.run 2 .forever c (.clamp 5) (.clamp 6) (.clamp 8)).answer =
        (.ok (.value (some 6)), false) := by
  intro fault past c failing loading late
  have hopen : c.closed = false := by decide +kernel
  exact ⟨hopen,
    (behaves_of_reachable 2 1 (some 0) past failing 1 (.ofMillis 9) (.clamp 5) (.clamp 6)
      (.clamp 8) hopen).1, by decide +kernel,
    (behaves_of_reachable 2 1 (some 0) past loading 1 (.ofMillis 9) (.clamp 5) (.clamp 6)
      (.clamp 8) hopen).1, by decide +kernel,
    (behaves_of_reachable 2 1 (some 0) past late 2 .forever (.clamp 5) (.clamp 6)
      (.clamp 8) hopen).1, by decide +kernel⟩

end Attempt

end ExpiringCache
