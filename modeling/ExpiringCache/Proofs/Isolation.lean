import ExpiringCache.Proofs.Families

/-!
# Cancelling isolates handles

In a guarded session a handle is refused work once its scope is cancelled, or one that its scope
derives from; and for nothing else that is done to any handle.

1. **Faults of the cache** (`Cache.fault_eq_overflow`, `Call.answer_conclude_eq_error_iff`): the
   cache itself never answers that something was cancelled, unless a loader did.
2. **Refused or served** (`Session.Isolated`): a handle gets nothing, or what the cache gives.
3. **Others are spared** (`Session.Spared`): cancelling one handle changes nothing for those
   that do not derive from it.
4. **Every run** (`Session.isolating_of_moves`).
-/

namespace ExpiringCache

variable {α β : Type} [Ord α] [Std.TransOrd α]

/-! ## Faults of the cache -/

theorem Entry.fault_eq_overflow {e : Entry β} {now : Instant} {fault : Fault}
    (h : e.timeLeftAt now = .error fault) : fault = .overflow .difference := by
  unfold timeLeftAt at h
  split at h
  · cases h
  · split at h
    · exact (Except.error.inj h).symm
    · cases h

/-- Only what is left of a lifetime may be beyond what the cache can tell. -/
theorem Cache.fault_eq_overflow {c : Cache α β} {op : Operation α β} {now : Instant} {fault : Fault}
    (h : (c.perform op now).answer = .error fault) : fault = .overflow .difference := by
  have hmap : ∀ {left : Except Fault TimeLeft},
      left.map (Answer.timeLeft (α := α) (β := β)) = .error fault → left = .error fault := by
    intro left hleft
    cases left with
    | error other => exact congrArg Except.error (Except.error.inj hleft)
    | ok left => cases hleft
  cases op with
  | timeLeft key =>
    replace h := hmap h
    simp only [Cache.timeLeft, Cache.reading] at h
    split at h
    · cases h
    · exact Entry.fault_eq_overflow h
  | setLifetime key lifetime =>
    replace h := hmap h
    unfold Cache.setLifetime Cache.writing at h
    split at h
    · cases h
    · dsimp only at h
      split at h
      · cases h
      · split at h
        · rename_i hleft
          exact Entry.fault_eq_overflow (hleft.trans h)
        · cases h
  | _ => cases h

namespace Call

/-- A first look that ends a call ends it well. -/
theorem answer_look_ne (call : Call α) (c : Cache α β) (now : Instant) (fault : Fault) :
    (call.look c now).answer ≠ .finished (.error fault) := by
  unfold look
  split <;> simp only [Turn.map] <;> split <;> simp

/-- So does a second look. -/
theorem answer_enter_ne (call : Call α) (c : Cache α β) (now : Instant) (fault : Fault) :
    (call.enter c now).answer ≠ .finished (.error fault) := by
  unfold enter Cache.writing
  split
  · split
    · simp
    · dsimp only
      split <;> simp
  · split
    · simp
    · dsimp only
      split <;> simp
  · simp

/-- A call whose loader has run fails with what the loader failed with, and else not. -/
theorem answer_conclude_eq_error_iff (call : Call α) (c : Cache α β)
    (outcome : Except Fault (Option β)) (now : Instant) (fault : Fault) :
    (call.conclude c outcome now).answer = .error fault ↔ outcome = .error fault := by
  unfold conclude
  cases outcome with
  | error other => simp
  | ok value =>
    dsimp only
    split <;> simp [Turn.map]

end Call

/-! ## Refused or served -/

namespace Session

variable {f : Family} {s : Session α β} {handle : Nat}

theorem perform_of_refused {op : Operation α β} (hop : op ≠ .close) {fault : Fault}
    (h : s.permit handle = .error fault) : s.perform handle op = (.error fault, s) := by
  unfold perform
  split
  · exact absurd rfl hop
  · dsimp only
    rw [h]

theorem perform_of_permitted (op : Operation α β) (h : s.permit handle = .ok ()) :
    s.perform handle op = s.commit (s.cache.perform op s.wall) := by
  unfold perform
  split
  · rfl
  · dsimp only
    rw [h]

theorem look_of_refused (call : Call α) {fault : Fault} (h : s.permit handle = .error fault) :
    s.look handle call = (.finished (.error fault), s) := by
  rw [look, h]

theorem look_of_permitted (call : Call α) (h : s.permit handle = .ok ()) :
    s.look handle call = s.commit (call.look s.cache s.wall) := by
  rw [look, h]

/-- A call that was let in fails with what its loader fails with, and else not. -/
theorem resume_spec (s : Session α β) (call : Call α) {phase : Phase α β} (shift : Int)
    (inner : Session α β → List (Reply α β) × Session α β) (outcome : Except Fault (Option β))
    {fault : Fault} (hphase : phase ≠ .finished (.error fault)) :
    ∃ result called replies,
      (s.resume call phase shift inner outcome).1 = .computed result called replies ∧
        (result = .error fault ↔ called = true ∧ outcome = .error fault) := by
  have hload : ∀ t : Session α β, ∃ result called replies,
      (t.load call shift inner outcome).1 = .computed result called replies ∧
        (result = .error fault ↔ called = true ∧ outcome = .error fault) := by
    intro t
    refine ⟨_, true, _, rfl, ?_⟩
    rw [eq_self, true_and]
    exact call.answer_conclude_eq_error_iff _ outcome _ fault
  have hover : ∀ result : Except Fault (Answer α β),
      Phase.finished result ≠ .finished (.error fault) →
        (result = .error fault ↔ false = true ∧ outcome = .error fault) := by
    intro result hne
    constructor
    · rintro rfl
      exact absurd rfl hne
    · rintro ⟨⟨⟩, -⟩
  cases phase with
  | finished result => exact ⟨result, false, [], rfl, hover result hphase⟩
  | loading => exact hload s
  | waiting =>
    have hentered := call.answer_enter_ne s.cache s.wall fault
    simp only [resume]
    split
    · rename_i result hfinished
      exact ⟨result, false, [], rfl, hover result (hfinished ▸ hentered)⟩
    · exact hload _

/-- A handle is refused everything but closing once its scope is cancelled, and then nothing
happens; else it gets what the cache gives. -/
structure Isolated (f : Family) (s : Session α β) (handle : Nat) : Prop where
  fails_iff : ∀ op ≠ .close, (s.perform handle op).1 = .error .cancelled ↔ f.IsCancelled handle
  /-- A computing call also passes on what its own loader failed with. -/
  computes_iff : ∀ (call : Call α) (loader : Loader (Request α β) β), ∃ result called replies,
    ((Request.compute handle call loader).run s).1 = .computed result called replies ∧
      (result = .error .cancelled ↔
        f.IsCancelled handle ∨ called = true ∧ loader.outcome = .error .cancelled)
  refused : f.IsCancelled handle →
    (∀ op ≠ .close, s.perform handle op = (.error .cancelled, s)) ∧
    (∀ call, s.look handle call = (.finished (.error .cancelled), s)) ∧
    ∀ (call : Call α) (loader : Loader (Request α β) β),
      (Request.compute handle call loader).run s = (.computed (.error .cancelled) false [], s)
  served : ¬ f.IsCancelled handle →
    (∀ op, s.perform handle op = s.commit (s.cache.perform op s.wall)) ∧
    (∀ call, s.look handle call = s.commit (call.look s.cache s.wall)) ∧
    ∀ (call : Call α) (loader : Loader (Request α β) β),
      (Request.compute handle call loader).run s =
        (s.commit (call.look s.cache s.wall)).2.resume call (call.look s.cache s.wall).answer
          loader.shift (Request.runAll loader.inner) loader.outcome
  closes : s.perform handle .close = s.commit (s.cache.perform .close s.wall)

theorem Kin.isolated (h : Kin f s) (handle : Nat) : Isolated f s handle := by
  have hrefused : f.IsCancelled handle → ∀ (call : Call α) (loader : Loader (Request α β) β),
      (Request.compute handle call loader).run s = (.computed (.error .cancelled) false [], s) := by
    intro hcancelled call loader
    rw [Request.run, look_of_refused call (h.permit_of_cancelled hcancelled)]
    rfl
  have hserved : ¬ f.IsCancelled handle → ∀ (call : Call α) (loader : Loader (Request α β) β),
      (Request.compute handle call loader).run s =
        (s.commit (call.look s.cache s.wall)).2.resume call (call.look s.cache s.wall).answer
          loader.shift (Request.runAll loader.inner) loader.outcome := by
    intro hcancelled call loader
    rw [Request.run, look_of_permitted call (h.permit_of_not_cancelled hcancelled)]
    rfl
  constructor
  · intro op hop
    by_cases hcancelled : f.IsCancelled handle
    · rw [perform_of_refused hop (h.permit_of_cancelled hcancelled)]
      exact iff_of_true rfl hcancelled
    · rw [perform_of_permitted op (h.permit_of_not_cancelled hcancelled)]
      refine iff_of_false (fun hfails => ?_) hcancelled
      cases Cache.fault_eq_overflow hfails
  · intro call loader
    by_cases hcancelled : f.IsCancelled handle
    · rw [hrefused hcancelled]
      exact ⟨_, _, _, rfl, iff_of_true rfl (.inl hcancelled)⟩
    · rw [hserved hcancelled]
      simp only [hcancelled, false_or]
      exact resume_spec _ call _ _ _ (call.answer_look_ne s.cache s.wall .cancelled)
  · intro hcancelled
    have hpermit := h.permit_of_cancelled hcancelled
    refine ⟨?_, ?_, hrefused hcancelled⟩
    · intro op hop
      exact perform_of_refused hop hpermit
    · intro call
      exact look_of_refused call hpermit
  · intro hcancelled
    have hpermit := h.permit_of_not_cancelled hcancelled
    refine ⟨?_, ?_, hserved hcancelled⟩
    · intro op
      exact perform_of_permitted op hpermit
    · intro call
      exact look_of_permitted call hpermit
  · rfl

theorem Kin.lasts (h : Kin f s) (hhandle : handle < f.handles.length)
    (hcancelled : f.IsCancelled handle) (moves : List (Move α β)) :
    (f.afterAll moves).IsCancelled handle := by
  induction moves generalizing f s with
  | nil => exact hcancelled
  | cons m moves ih =>
    have hlength := Nat.lt_of_lt_of_le hhandle (Family.length_handles_after m)
    exact ih (h.move m) hlength (hcancelled.after h.ordered hhandle m)

/-! ## Others are spared -/

/-- To cancel `other` changes nothing of what `handle` asks for and gets. -/
structure Spared (s : Session α β) (handle other : Nat) : Prop where
  perform_eq : ∀ op, (s.cancel other).perform handle op =
    ((s.perform handle op).1, (s.perform handle op).2.cancel other)
  look_eq : ∀ call, (s.cancel other).look handle call =
    ((s.look handle call).1, (s.look handle call).2.cancel other)

theorem Kin.spared (h : Kin f s) {handle other : Nat}
    (hapart : ¬ Family.Descends f.parents (f.scopeOf handle) (f.scopeOf other)) :
    Spared s handle other := by
  have hiff := Family.isCancelled_cancel_iff (α := α) (β := β) hapart
  have hpermit : (s.cancel other).permit handle = s.permit handle := by
    by_cases hcancelled : f.IsCancelled handle
    · rw [h.permit_of_cancelled hcancelled,
        (h.cancel other).permit_of_cancelled (hiff.mpr hcancelled)]
    · rw [h.permit_of_not_cancelled hcancelled,
        (h.cancel other).permit_of_not_cancelled (mt hiff.mp hcancelled)]
  constructor
  · intro op
    unfold perform
    split
    · rfl
    · dsimp only
      rw [hpermit]
      cases s.permit handle <;> rfl
  · intro call
    rw [look, hpermit, look]
    cases s.permit handle <;> rfl

/-! ## Every run -/

/-- Cancelling isolates the handles of a session from each other. -/
structure Isolating (f : Family) (s : Session α β) : Prop where
  isolated : ∀ handle, Isolated f s handle
  /-- A call that was let in is not refused later on. -/
  goes_on : ∀ call : Call α, (s.enter call).1 ≠ .finished (.error .cancelled) ∧
    ∀ outcome, (s.conclude call outcome).1 = .error .cancelled ↔ outcome = .error .cancelled
  lasts : ∀ handle < f.handles.length, f.IsCancelled handle →
    ∀ moves : List (Move α β), (f.afterAll moves).IsCancelled handle
  spares : ∀ handle other, ¬ Family.Descends f.parents (f.scopeOf handle) (f.scopeOf other) →
    Spared s handle other
  spares_parent : ∀ handle other, f.IsParent handle other → Spared s handle other
  spares_sibling : ∀ handle other, f.AreSiblings handle other → Spared s handle other

/-- Whatever is done to a guarded session, cancelling isolates its handles, and a handle counts as
cancelled for what was done earlier and for nothing else. -/
theorem isolating_of_moves (cache : Cache α β) (wall : Instant) (host : Host)
    (moves : List (Move α β)) :
    Isolating (Family.single.afterAll moves) ((ofCache cache true wall host).moveAll moves) ∧
      ∀ handle, (Family.single.afterAll moves).IsCancelled handle ↔
        Family.CancelledBy moves handle := by
  refine ⟨?_, fun handle => Family.isCancelled_iff_cancelledBy moves⟩
  have h : Kin (Family.single.afterAll moves) ((ofCache cache true wall host).moveAll moves) :=
    (kin_ofCache cache wall host).moveAll moves
  constructor
  · exact h.isolated
  · intro call
    constructor
    · exact call.answer_enter_ne _ _ .cancelled
    · intro outcome
      exact call.answer_conclude_eq_error_iff _ outcome _ .cancelled
  · intro handle hhandle hcancelled more
    exact h.lasts hhandle hcancelled more
  · intro handle other hapart
    exact h.spared hapart
  · intro handle other hparent
    exact h.spared (hparent.not_descends h.ordered)
  · intro handle other hsiblings
    exact h.spared (hsiblings.not_descends h.ordered)

/-- Handle 1 is a clone of the first one; 2 and 4 have scopes derived from theirs, and 3 has one
derived from that of 2, which is cancelled. -/
theorem isolating_of_nested_handles :
    let moves : List (Move Nat Nat) := [.step (.clone 0), .step (.withScope 1 true),
      .step (.withScope 2 true), .step (.withScope 0 true), .step (.cancel 2)]
    let s := (ofCache (Cache.empty 0 1) true (.clamp 0)).moveAll moves
    Std.TransOrd Nat ∧ s.perform 3 (.get 7) = (.error .cancelled, s) ∧
      (s.perform 1 (.get 7)).1 ≠ .error .cancelled ∧
      (s.perform 4 (.get 7)).1 ≠ .error .cancelled := by
  intro moves s
  have h := (isolating_of_moves (Cache.empty 0 1) (.clamp 0) .usual moves).1
  have hnever : ∀ handle, ¬ (Family.single.afterAll moves).IsCancelled handle →
      (s.perform handle (.get 7)).1 ≠ .error .cancelled := by
    intro handle
    exact mt ((h.isolated handle).fails_iff (.get 7) nofun).mp
  refine ⟨inferInstance, ?_, ?_, ?_⟩
  · refine ((h.isolated 3).refused ?_).1 (.get 7) nofun
    exact ⟨1, List.mem_singleton.mpr rfl, .step rfl (.refl 1)⟩
  · refine hnever 1 ?_
    rintro ⟨scope, hmem, hdescends⟩
    obtain rfl : scope = 1 := List.mem_singleton.mp hmem
    obtain ⟨⟨⟩⟩ | ⟨parent, hparent, -⟩ := hdescends.eq_or
    cases hparent
  · refine hnever 4 ?_
    rintro ⟨scope, hmem, hdescends⟩
    obtain rfl : scope = 1 := List.mem_singleton.mp hmem
    obtain heq | ⟨parent, hparent, hrest⟩ := hdescends.eq_or
    · cases heq
    · obtain rfl : 0 = parent := Option.some.inj (Option.some.inj hparent)
      obtain heq | ⟨parent, hparent, -⟩ := hrest.eq_or
      · cases heq
      · cases hparent

/-- A loader may fail with the fault that a cancelled scope is refused with, and the call passes it
on though nothing was cancelled. -/
theorem cancelled_by_own_loader :
    ((Request.compute 0 ⟨.getOrSet, "k", .forever⟩ ⟨0, [], .error .cancelled⟩).run
      (ofCache (Cache.empty 0 1 : Cache String Nat) true (.clamp 1700000000000))).1 =
        .computed (.error .cancelled) true [] ∧ ¬ Family.single.IsCancelled 0 := by
  constructor
  · rfl
  · rintro ⟨scope, hmem, -⟩
    cases hmem

end Session

end ExpiringCache
