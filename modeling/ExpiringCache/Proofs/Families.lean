import ExpiringCache.Session.Script

/-!
# Families of handles

Handles of one cache share scopes or derive new ones, to any depth. A family tells from the
moves of a run which scope each handle has, which scope was derived from which, and which were
cancelled; the session keeps the same account in its own way.

1. **What callers do** (`Session.Leads`): requests, with their loaders, and stampedes are operations
   and parts of calls, one after the other.
2. **What leaves the handles alone** (`Session.access`): no operation, loader, stride of time or
   sweep changes a handle or a scope.
3. **Families** (`Move`, `Family`, `Family.Descends`): descent is defined by steps from a scope
   to the one it was derived from, and a handle is cancelled if its scope descends from a
   cancelled one.
4. **The account is kept** (`Session.Kin`): every move keeps scopes and handles those of the family.
-/

namespace ExpiringCache

variable {α β ρ : Type} [Ord α] [Std.TransOrd α]

/-! ## What callers do -/

namespace Session

/-- Operations and the parts of computing calls lead from one session to another, with the wall
clock set in between. -/
inductive Leads (s : Session α β) : Session α β → Prop
  | refl : Leads s s
  | perform {t : Session α β} (h : Leads s t) (handle : Nat) (op : Operation α β) :
    Leads s (t.perform handle op).2
  | look {t : Session α β} (h : Leads s t) (handle : Nat) (call : Call α) :
    Leads s (t.look handle call).2
  | enter {t : Session α β} (h : Leads s t) (call : Call α) : Leads s (t.enter call).2
  | conclude {t : Session α β} (h : Leads s t) (call : Call α)
    (outcome : Except Fault (Option β)) : Leads s (t.conclude call outcome).2
  | shiftWall {t : Session α β} (h : Leads s t) (ms : Int) : Leads s (t.shiftWall ms)

namespace Leads

variable {s t : Session α β}

theorem probeKeys (h : Leads s t) (handle : Nat) (keys : List α) (counts : Nat × Nat) :
    Leads s (t.probeKeys handle keys counts).2 := by
  induction keys generalizing t counts with
  | nil => exact h
  | cons key keys ih =>
    simp only [Session.probeKeys]
    split
    · exact h.perform handle (.get key)
    · exact ih (h.perform handle (.get key)) _
    · exact ih (h.perform handle (.get key)) _

theorem probeRounds (h : Leads s t) (handle : Nat) (keys : List α) (rounds : Nat)
    (counts : Nat × Nat) : Leads s (t.probeRounds handle keys rounds counts).2 := by
  induction rounds generalizing t counts with
  | zero => exact h
  | succ rounds ih =>
    simp only [Session.probeRounds]
    split
    · exact h.probeKeys handle keys counts
    · exact ih (h.probeKeys handle keys counts) _

/-- A call leads on from wherever its loader leads. -/
theorem resume (h : Leads s t) (call : Call α) (phase : Phase α β) (shift : Int)
    {inner : Session α β → List (Reply α β) × Session α β}
    (hinner : ∀ t, Leads s t → Leads s (inner t).2) (outcome : Except Fault (Option β)) :
    Leads s (t.resume call phase shift inner outcome).2 := by
  have hload : ∀ t : Session α β, Leads s t → Leads s (t.load call shift inner outcome).2 :=
    fun t h => (hinner _ (h.shiftWall shift)).conclude call outcome
  cases phase with
  | finished result => exact h
  | loading => exact hload t h
  | waiting =>
    simp only [Session.resume]
    split
    · exact h.enter call
    · exact hload _ (h.enter call)

end Leads

end Session

namespace Request

open Session

mutual

theorem leads_run : ∀ (request : Request α β) {s t : Session α β}, Leads s t →
    Leads s (request.run t).2
  | .plain handle op, _, _, h => h.perform handle op
  | .probe handle keys rounds, _, _, h => h.probeRounds handle keys rounds (0, 0)
  | .compute handle call ⟨shift, inner, outcome⟩, _, _, h =>
    (h.look handle call).resume call _ shift (fun _ => leads_runAll inner) outcome

theorem leads_runAll : ∀ (requests : List (Request α β)) {s t : Session α β}, Leads s t →
    Leads s (runAll requests t).2
  | [], _, _, h => h
  | request :: requests, _, _, h => leads_runAll requests (leads_run request h)

end

end Request

namespace Session

variable {s t : Session α β}

namespace Leads

theorem lookAll (h : Leads s t) (form : Form) (callers : List (Caller α β)) :
    Leads s (lookAll form callers t).2 := by
  induction callers generalizing t with
  | nil => exact h
  | cons caller callers ih => exact ih (h.look caller.handle _)

theorem resumeCaller (h : Leads s t) (form : Form) (caller : Caller α β) (phase : Phase α β) :
    Leads s (t.resumeCaller form caller phase).2 :=
  h.resume _ phase _ (fun _ => Request.leads_runAll _) _

theorem resumeAll (h : Leads s t) (form : Form) (callers : List (Caller α β × Phase α β)) :
    Leads s (resumeAll form callers t).2 := by
  induction callers generalizing t with
  | nil => exact h
  | cons caller callers ih => exact ih (h.resumeCaller form caller.1 caller.2)

theorem stampedeLocked (h : Leads s t) (form : Form) (callers : List (Caller α β)) :
    Leads s (stampedeLocked form callers t).2 := by
  induction callers generalizing t with
  | nil => exact h
  | cons caller callers ih =>
    have hlook := h.look caller.handle ⟨form, caller.key, caller.lifetime⟩
    simp only [Session.stampedeLocked]
    split
    · exact ih (hlook.resumeCaller form caller _)
    · exact ((hlook.resumeCaller form caller _).lookAll form callers).resumeAll form _

theorem stampede (h : Leads s t) (form : Form) (callers : List (Caller α β)) :
    Leads s (t.stampede form callers).2 := by
  unfold Session.stampede
  split
  · exact h.stampedeLocked form callers
  · exact (h.lookAll form callers).resumeAll form _

end Leads

/-! ## What leaves the handles alone -/

/-- All that decides which handle may do anything. -/
def access (s : Session α β) : Bool × Scopes × Array Nat := (s.guarded, s.scopes, s.handles)

theorem Leads.access_eq (h : Leads s t) : t.access = s.access := by
  induction h with
  | refl => rfl
  | perform _ handle op ih =>
    rw [← ih]
    unfold Session.perform
    dsimp only
    split <;> rfl
  | look _ handle call ih =>
    rw [← ih]
    unfold Session.look
    split <;> rfl
  | enter _ call ih => exact ih
  | conclude _ call outcome ih => exact ih
  | shiftWall _ ms ih => exact ih

variable (s)

omit [Std.TransOrd α] in
theorem access_startSweeper (interval : Nat) : (s.startSweeper interval).access = s.access := by
  unfold startSweeper
  split
  · rfl
  · dsimp only
    split <;> rfl

omit [Std.TransOrd α] in
theorem access_foldl {γ : Type} {f : Session α β → γ → Session α β}
    (h : ∀ t x, (f t x).access = t.access) (xs : List γ) : (xs.foldl f s).access = s.access := by
  induction xs generalizing s with
  | nil => rfl
  | cons x xs ih => exact (ih (f s x)).trans (h s x)

theorem access_wake (id : Nat) : (s.wake id).access = s.access := by
  unfold wake
  split
  · rfl
  · dsimp only
    refine access_foldl _ (fun t happening => ?_) _
    -- whatever the sweeper has to do, it sweeps or does nothing
    split <;> rfl

theorem access_stride (limit fuel : Nat) : (stride limit fuel s).access = s.access := by
  induction fuel generalizing s with
  | zero => rfl
  | succ fuel ih =>
    simp only [stride]
    split
    · rw [ih]
      exact access_foldl _ access_wake _
    · rfl

end Session

/-! ## Scopes -/

namespace Scopes

omit [Ord α] [Std.TransOrd α]

variable (s : Scopes) (id parent : Nat)

theorem lineage_child : (s.child parent).2.lineage id =
    if id = s.all.size then s.all.size :: s.lineage parent else s.lineage id := by
  simp only [child, lineage, Array.getElem?_push]
  split <;> rfl

theorem isCancelled_child : (s.child parent).2.isCancelled id =
    if id = s.all.size then s.isCancelled parent else s.isCancelled id := by
  simp only [child, isCancelled, Array.getElem?_push]
  split <;> rfl

theorem lineage_root : s.root.2.lineage id =
    if id = s.all.size then [s.all.size] else s.lineage id := by
  simp only [root, lineage, Array.getElem?_push]
  split <;> rfl

theorem isCancelled_root : s.root.2.isCancelled id =
    if id = s.all.size then false else s.isCancelled id := by
  simp only [root, isCancelled, Array.getElem?_push]
  split <;> rfl

theorem lineage_cancel (cancelled : Nat) :
    (s.cancel cancelled).lineage id = s.lineage id := by
  simp only [cancel, lineage, Array.getElem?_map, Option.map_map]
  rfl

/-- Cancelling a scope cancels those that derive from it, and no others. -/
theorem isCancelled_cancel (cancelled : Nat) : (s.cancel cancelled).isCancelled id =
    (s.isCancelled id || (s.lineage id).contains cancelled) := by
  simp only [cancel, isCancelled, lineage, Array.getElem?_map]
  cases s.all[id]? <;> simp

end Scopes

/-! ## Families -/

/-- One thing done to a session. The parts of a computing call are moves of their own as well,
so that others, and the loader, may do anything in between. -/
inductive Move (α β : Type) where
  | step (step : Step α β)
  | look (handle : Nat) (call : Call α)
  | enter (call : Call α)
  | conclude (call : Call α) (outcome : Except Fault (Option β))

/-- Which scope each handle has, which scope each was derived from, and which were cancelled. -/
structure Family where
  handles : List Nat
  parents : List (Option Nat)
  cancelled : List Nat

namespace Family

omit [Ord α] [Std.TransOrd α]

/-- One handle with a scope of its own. -/
def single : Family := ⟨[0], [none], []⟩

def scopeOf (f : Family) (handle : Nat) : Nat := f.handles[handle]?.getD 0

/-- A move clones a handle, gives a new handle a new scope, or cancels the scope of a handle;
else it is no matter of the family. -/
def after (f : Family) : Move α β → Family
  | .step (.clone handle) => { f with handles := f.handles ++ [f.scopeOf handle] }
  | .step (.withScope handle derived) =>
    { f with
      handles := f.handles ++ [f.parents.length]
      parents := f.parents ++ [if derived then some (f.scopeOf handle) else none] }
  | .step (.cancel handle) => { f with cancelled := f.cancelled ++ [f.scopeOf handle] }
  | _ => f

def afterAll (f : Family) (moves : List (Move α β)) : Family := moves.foldl after f

/-- The first scope is the second, or derives from it, directly or through others. -/
inductive Descends (parents : List (Option Nat)) : Nat → Nat → Prop
  | refl (scope : Nat) : Descends parents scope scope
  | step {scope parent ancestor : Nat} (hparent : parents[scope]? = some (some parent))
    (h : Descends parents parent ancestor) : Descends parents scope ancestor

/-- The scope of the handle was cancelled, or one that it derives from. -/
def IsCancelled (f : Family) (handle : Nat) : Prop :=
  ∃ scope ∈ f.cancelled, Descends f.parents (f.scopeOf handle) scope

/-- Some move cancelled a handle whose scope was the one that `handle` has after all of them, or one
that it derives from. -/
def CancelledBy (moves : List (Move α β)) (handle : Nat) : Prop :=
  ∃ earlier other later, moves = earlier ++ .step (.cancel other) :: later ∧
    Descends (single.afterAll moves).parents ((single.afterAll moves).scopeOf handle)
      ((single.afterAll earlier).scopeOf other)

/-- The scope of `other` was derived from that of `handle` itself. -/
def IsParent (f : Family) (handle other : Nat) : Prop :=
  f.parents[f.scopeOf other]? = some (some (f.scopeOf handle))

/-- The two handles have different scopes, derived from the same one. -/
def AreSiblings (f : Family) (handle other : Nat) : Prop :=
  f.scopeOf handle ≠ f.scopeOf other ∧ ∃ parent, f.parents[f.scopeOf handle]? = some (some parent) ∧
    f.parents[f.scopeOf other]? = some (some parent)

/-- The scopes that are spoken of exist, and each was there before those derived from it. -/
structure Ordered (f : Family) : Prop where
  nonempty : 0 < f.parents.length
  handle_lt : ∀ scope ∈ f.handles, scope < f.parents.length
  cancelled_lt : ∀ scope ∈ f.cancelled, scope < f.parents.length
  parent_lt : ∀ scope parent : Nat, f.parents[scope]? = some (some parent) → parent < scope

variable {f : Family} {scope ancestor handle other : Nat}

theorem Descends.le (h : Descends f.parents scope ancestor) (hf : f.Ordered) :
    ancestor ≤ scope := by
  induction h with
  | refl => exact Nat.le_refl _
  | step hparent _ ih => exact Nat.le_trans ih (Nat.le_of_lt (hf.parent_lt _ _ hparent))

theorem Descends.eq_or (h : Descends f.parents scope ancestor) : scope = ancestor ∨
    ∃ parent, f.parents[scope]? = some (some parent) ∧ Descends f.parents parent ancestor := by
  cases h with
  | refl => exact .inl rfl
  | step hparent hrest => exact .inr ⟨_, hparent, hrest⟩

theorem Ordered.scopeOf_lt (hf : f.Ordered) (handle : Nat) :
    f.scopeOf handle < f.parents.length := by
  unfold scopeOf
  cases hscope : f.handles[handle]? with
  | none => exact hf.nonempty
  | some scope => exact hf.handle_lt scope (List.mem_of_getElem? hscope)

theorem ordered_single : single.Ordered where
  nonempty := by decide
  handle_lt := by decide
  cancelled_lt := by decide
  parent_lt scope parent h := by cases scope <;> cases h

/-! ### One more scope -/

section Extend

variable {made : Option Nat}

/-- Who derives from whom does not change for the scopes that were there. -/
theorem descends_extend (hf : f.Ordered) (hscope : scope < f.parents.length) :
    Descends (f.parents ++ [made]) scope ancestor ↔ Descends f.parents scope ancestor := by
  constructor
  · intro h
    induction h with
    | refl => exact .refl _
    | step hparent _ ih =>
      rw [List.getElem?_append_left hscope] at hparent
      exact .step hparent (ih (Nat.lt_trans (hf.parent_lt _ _ hparent) hscope))
  · intro h
    induction h with
    | refl => exact .refl _
    | step hparent _ ih =>
      refine .step ?_ (ih (Nat.lt_trans (hf.parent_lt _ _ hparent) hscope))
      rwa [List.getElem?_append_left hscope]

/-- A new scope derives from the one it was made from, and from what that derives from. -/
theorem descends_made (hf : f.Ordered)
    (hmade : ∀ parent, made = some parent → parent < f.parents.length) :
    Descends (f.parents ++ [made]) f.parents.length ancestor ↔
      ancestor = f.parents.length ∨
        ∃ parent, made = some parent ∧ Descends f.parents parent ancestor := by
  have hget : (f.parents ++ [made])[f.parents.length]? = some made := by simp
  constructor
  · intro h
    cases h with
    | refl => exact .inl rfl
    | @step _ parent _ hparent hrest =>
      obtain rfl := Option.some.inj (hget.symm.trans hparent)
      exact .inr ⟨parent, rfl, (descends_extend hf (hmade parent rfl)).mp hrest⟩
  · rintro (rfl | ⟨parent, rfl, hrest⟩)
    · exact .refl _
    · exact .step hget ((descends_extend hf (hmade parent rfl)).mpr hrest)

theorem Ordered.extend (hf : f.Ordered)
    (hmade : ∀ parent, made = some parent → parent < f.parents.length) :
    Ordered { f with parents := f.parents ++ [made] } := by
  have hlonger : f.parents.length < (f.parents ++ [made]).length := by simp
  constructor
  · exact Nat.zero_lt_of_lt hlonger
  · intro scope hscope
    exact Nat.lt_trans (hf.handle_lt scope hscope) hlonger
  · intro scope hscope
    exact Nat.lt_trans (hf.cancelled_lt scope hscope) hlonger
  · intro scope parent hparent
    by_cases hscope : scope < f.parents.length
    · rw [List.getElem?_append_left hscope] at hparent
      exact hf.parent_lt scope parent hparent
    · -- the new one is the only scope beyond the old ones
      rw [List.getElem?_append_right (Nat.le_of_not_lt hscope)] at hparent
      have hlast := List.mem_singleton.mp (List.mem_of_getElem? hparent)
      exact Nat.lt_of_lt_of_le (hmade parent hlast.symm) (Nat.le_of_not_lt hscope)

end Extend

/-! ### Cancelling -/

theorem mem_cancelled_after_iff (m : Move α β) : scope ∈ (f.after m).cancelled ↔
    scope ∈ f.cancelled ∨ ∃ handle, m = .step (.cancel handle) ∧ f.scopeOf handle = scope := by
  cases m with
  | step step => cases step <;> simp [after, eq_comm]
  | _ => simp [after]

/-- A scope is among the cancelled ones if some move cancelled a handle that had it then. -/
theorem mem_cancelled_afterAll_iff (moves : List (Move α β)) :
    scope ∈ (f.afterAll moves).cancelled ↔ scope ∈ f.cancelled ∨ ∃ earlier handle later,
      moves = earlier ++ .step (.cancel handle) :: later ∧
        (f.afterAll earlier).scopeOf handle = scope := by
  induction moves generalizing f with
  | nil => simp [afterAll]
  | cons m moves ih =>
    have hrest := ih (f := f.after m)
    rw [mem_cancelled_after_iff] at hrest
    refine hrest.trans ?_
    constructor
    · rintro ((hmem | ⟨handle, rfl, hscope⟩) | ⟨earlier, handle, later, rfl, hscope⟩)
      · exact .inl hmem
      · exact .inr ⟨[], handle, moves, rfl, hscope⟩
      · exact .inr ⟨m :: earlier, handle, later, rfl, hscope⟩
    · rintro (hmem | ⟨earlier, handle, later, hmoves, hscope⟩)
      · exact .inl (.inl hmem)
      · cases earlier with
        | nil =>
          obtain ⟨rfl, -⟩ := List.cons.inj hmoves
          exact .inl (.inr ⟨handle, rfl, hscope⟩)
        | cons first earlier =>
          obtain ⟨rfl, rfl⟩ := List.cons.inj hmoves
          exact .inr ⟨earlier, handle, later, rfl, hscope⟩

theorem isCancelled_iff_cancelledBy (moves : List (Move α β)) :
    (single.afterAll moves).IsCancelled handle ↔ CancelledBy moves handle := by
  constructor
  · rintro ⟨scope, hmem, hdescends⟩
    obtain hsingle | ⟨earlier, other, later, hmoves, rfl⟩ :=
      (mem_cancelled_afterAll_iff moves).mp hmem
    · cases hsingle
    · exact ⟨earlier, other, later, hmoves, hdescends⟩
  · rintro ⟨earlier, other, later, hmoves, hdescends⟩
    exact ⟨_, (mem_cancelled_afterAll_iff moves).mpr (.inr ⟨earlier, other, later, hmoves, rfl⟩),
      hdescends⟩

theorem IsParent.not_descends (h : f.IsParent handle other) (hf : f.Ordered) :
    ¬ Descends f.parents (f.scopeOf handle) (f.scopeOf other) := by
  intro hdescends
  have hle := hdescends.le hf
  have hlt := hf.parent_lt _ _ h
  omega

theorem AreSiblings.not_descends (h : f.AreSiblings handle other) (hf : f.Ordered) :
    ¬ Descends f.parents (f.scopeOf handle) (f.scopeOf other) := by
  obtain ⟨hne, parent, hhandle, hother⟩ := h
  intro hdescends
  obtain heq | ⟨made, hmade, hrest⟩ := hdescends.eq_or
  · exact hne heq
  · -- what both were derived from would derive from one of them
    obtain rfl : parent = made := Option.some.inj (Option.some.inj (hhandle.symm.trans hmade))
    have hle := hrest.le hf
    have hlt := hf.parent_lt _ _ hother
    omega

theorem isCancelled_cancel_iff (h : ¬ Descends f.parents (f.scopeOf handle) (f.scopeOf other)) :
    (f.after (.step (.cancel other) : Move α β)).IsCancelled handle ↔ f.IsCancelled handle := by
  constructor
  · rintro ⟨scope, hmem, hdescends⟩
    rcases List.mem_append.mp hmem with hmem | hmem
    · exact ⟨scope, hmem, hdescends⟩
    · obtain rfl := List.mem_singleton.mp hmem
      exact absurd hdescends h
  · rintro ⟨scope, hmem, hdescends⟩
    exact ⟨scope, List.mem_append_left _ hmem, hdescends⟩

theorem length_handles_after (m : Move α β) :
    f.handles.length ≤ (f.after m).handles.length := by
  cases m with
  | step step => cases step <;> simp [after]
  | _ => exact Nat.le_refl _

/-- Nothing undoes a cancellation. -/
theorem IsCancelled.after (h : f.IsCancelled handle) (hf : f.Ordered)
    (hhandle : handle < f.handles.length) (m : Move α β) : (f.after m).IsCancelled handle := by
  obtain ⟨scope, hmem, hdescends⟩ := h
  have hscope : ∀ more, (f.handles ++ more)[handle]? = f.handles[handle]? := by
    intro more
    exact List.getElem?_append_left hhandle
  cases m with
  | step step =>
    cases step with
    | clone handle =>
      refine ⟨scope, hmem, ?_⟩
      simp only [Family.after, scopeOf, hscope]
      exact hdescends
    | withScope handle derived =>
      refine ⟨scope, hmem, ?_⟩
      simp only [Family.after, scopeOf, hscope]
      exact (descends_extend hf (hf.scopeOf_lt _)).mpr hdescends
    | cancel handle => exact ⟨scope, List.mem_append_left _ hmem, hdescends⟩
    | _ => exact ⟨scope, hmem, hdescends⟩
  | _ => exact ⟨scope, hmem, hdescends⟩

end Family

namespace Session

/-! ## The account is kept -/

/-- Does one move. -/
def move (s : Session α β) : Move α β → Session α β
  | .step step => (s.step step).2
  | .look handle call => (s.look handle call).2
  | .enter call => (s.enter call).2
  | .conclude call outcome => (s.conclude call outcome).2

def moveAll (s : Session α β) (moves : List (Move α β)) : Session α β := moves.foldl move s

/-- The session is guarded, and its scopes and handles are those of the family. -/
structure Kin (f : Family) (s : Session α β) : Prop where
  ordered : f.Ordered
  guarded : s.guarded = true
  handles_eq : s.handles.toList = f.handles
  size_eq : s.scopes.all.size = f.parents.length
  mem_lineage_iff : ∀ scope < f.parents.length, ∀ ancestor,
    ancestor ∈ s.scopes.lineage scope ↔ Family.Descends f.parents scope ancestor
  isCancelled_iff : ∀ scope < f.parents.length, (s.scopes.isCancelled scope = true ↔
    ∃ ancestor ∈ f.cancelled, Family.Descends f.parents scope ancestor)

variable {f : Family} {s t : Session α β} {handle : Nat}

omit [Std.TransOrd α]

theorem Kin.of_access (h : Kin f s) (haccess : t.access = s.access) : Kin f t := by
  obtain ⟨hguarded, hscopes, hhandles⟩ : t.guarded = s.guarded ∧ t.scopes = s.scopes ∧
      t.handles = s.handles := by simpa [access] using haccess
  constructor
  · exact h.ordered
  · rw [hguarded, h.guarded]
  · rw [hhandles, h.handles_eq]
  · rw [hscopes, h.size_eq]
  · rw [hscopes]
    exact h.mem_lineage_iff
  · rw [hscopes]
    exact h.isCancelled_iff

theorem Kin.scopeOf_eq (h : Kin f s) (handle : Nat) : s.scopeOf handle = f.scopeOf handle := by
  rw [scopeOf, Family.scopeOf, ← h.handles_eq, Array.getElem?_toList]

theorem kin_ofCache (cache : Cache α β) (wall : Instant) (host : Host) :
    Kin .single (ofCache cache true wall host) where
  ordered := Family.ordered_single
  guarded := rfl
  handles_eq := rfl
  size_eq := rfl
  mem_lineage_iff scope hscope ancestor := by
    obtain rfl : scope = 0 := Nat.lt_one_iff.mp hscope
    have hlineage : ancestor ∈ (ofCache cache true wall host).scopes.lineage 0 ↔ ancestor = 0 :=
      List.mem_singleton
    rw [hlineage]
    constructor
    · rintro rfl
      exact .refl 0
    · intro hdescends
      exact Nat.le_zero.mp (hdescends.le Family.ordered_single)
  isCancelled_iff scope hscope := by
    obtain rfl : scope = 0 := Nat.lt_one_iff.mp hscope
    constructor
    · intro hcancelled
      cases hcancelled
    · rintro ⟨ancestor, hmem, -⟩
      cases hmem

/-- One more handle, with a scope that is there. -/
theorem Kin.addHandle (h : Kin f s) {scope : Nat} (hscope : scope < f.parents.length) :
    Kin { f with handles := f.handles ++ [scope] } (s.addHandle scope).2 where
  ordered := by
    refine ⟨h.ordered.nonempty, ?_, h.ordered.cancelled_lt, h.ordered.parent_lt⟩
    exact List.forall_mem_append.mpr
      ⟨h.ordered.handle_lt, List.forall_mem_singleton.mpr hscope⟩
  guarded := h.guarded
  handles_eq := by
    show (s.handles.push scope).toList = f.handles ++ [scope]
    rw [Array.toList_push, h.handles_eq]
  size_eq := h.size_eq
  mem_lineage_iff := h.mem_lineage_iff
  isCancelled_iff := h.isCancelled_iff

/-- Cancelling reaches the scopes that derive from the cancelled one. -/
theorem Kin.cancel (h : Kin f s) (handle : Nat) :
    Kin { f with cancelled := f.cancelled ++ [f.scopeOf handle] } (s.cancel handle) where
  ordered := by
    refine ⟨h.ordered.nonempty, h.ordered.handle_lt, ?_, h.ordered.parent_lt⟩
    exact List.forall_mem_append.mpr
      ⟨h.ordered.cancelled_lt, List.forall_mem_singleton.mpr (h.ordered.scopeOf_lt handle)⟩
  guarded := h.guarded
  handles_eq := h.handles_eq
  size_eq := by
    show (s.scopes.all.map _).size = f.parents.length
    rw [Array.size_map, h.size_eq]
  mem_lineage_iff scope hscope ancestor := by
    show ancestor ∈ (s.scopes.cancel (s.scopeOf handle)).lineage scope ↔ _
    rw [Scopes.lineage_cancel]
    exact h.mem_lineage_iff scope hscope ancestor
  isCancelled_iff scope hscope := by
    show (s.scopes.cancel (s.scopeOf handle)).isCancelled scope = true ↔ _
    rw [Scopes.isCancelled_cancel, Bool.or_eq_true, List.contains_iff_mem,
      h.isCancelled_iff scope hscope, h.mem_lineage_iff scope hscope, h.scopeOf_eq]
    simp [or_and_right, exists_or]

/-- A new scope, derived from one that is there or not, with what its lineage and its mark are to
be. -/
theorem Kin.made (h : Kin f s) {made : Option Nat} {scopes : Scopes} {lineage : List Nat}
    {cancelled : Bool} (hmade : ∀ parent, made = some parent → parent < f.parents.length)
    (hsize : scopes.all.size = s.scopes.all.size + 1)
    (hlineages : ∀ id, scopes.lineage id =
      if id = s.scopes.all.size then s.scopes.all.size :: lineage else s.scopes.lineage id)
    (hlineage : lineage = made.elim [] s.scopes.lineage)
    (hmarks : ∀ id, scopes.isCancelled id =
      if id = s.scopes.all.size then cancelled else s.scopes.isCancelled id)
    (hcancelled : cancelled = made.elim false s.scopes.isCancelled) :
    Kin { f with parents := f.parents ++ [made] } { s with scopes } := by
  have hnew : ∀ ancestor, ancestor ∈ lineage ↔
      ∃ parent, made = some parent ∧ Family.Descends f.parents parent ancestor := by
    intro ancestor
    rw [hlineage]
    cases made with
    | none => simp
    | some parent => simp [h.mem_lineage_iff parent (hmade parent rfl)]
  have hmark : cancelled = true ↔ ∃ ancestor ∈ f.cancelled, ancestor ∈ lineage := by
    rw [hcancelled, hlineage]
    cases made with
    | none => simp
    | some parent =>
      simp only [Option.elim_some, h.isCancelled_iff parent (hmade parent rfl),
        h.mem_lineage_iff parent (hmade parent rfl)]
  constructor
  · exact h.ordered.extend hmade
  · exact h.guarded
  · exact h.handles_eq
  · show scopes.all.size = (f.parents ++ [made]).length
    rw [hsize, h.size_eq, List.length_append, List.length_singleton]
  · intro scope hscope ancestor
    show ancestor ∈ scopes.lineage scope ↔ Family.Descends (f.parents ++ [made]) scope ancestor
    rw [hlineages, h.size_eq]
    by_cases hlast : scope = f.parents.length
    · subst hlast
      rw [if_pos rfl, List.mem_cons, hnew, Family.descends_made h.ordered hmade]
    · rw [List.length_append, List.length_singleton] at hscope
      rw [if_neg hlast, Family.descends_extend h.ordered (by omega)]
      exact h.mem_lineage_iff scope (by omega) ancestor
  · intro scope hscope
    show scopes.isCancelled scope = true ↔
      ∃ ancestor ∈ f.cancelled, Family.Descends (f.parents ++ [made]) scope ancestor
    rw [hmarks, h.size_eq]
    by_cases hlast : scope = f.parents.length
    · subst hlast
      rw [if_pos rfl, hmark]
      -- the new scope itself is not among the cancelled ones
      refine exists_congr fun ancestor => and_congr_right fun hmem => ?_
      rw [hnew, Family.descends_made h.ordered hmade]
      have := h.ordered.cancelled_lt ancestor hmem
      exact ⟨.inr, fun hor => hor.resolve_left (by omega)⟩
    · rw [List.length_append, List.length_singleton] at hscope
      rw [if_neg hlast, h.isCancelled_iff scope (by omega)]
      refine exists_congr fun ancestor => and_congr_right fun _ => ?_
      exact (Family.descends_extend h.ordered (by omega)).symm

theorem Kin.withScope (h : Kin f s) (handle : Nat) (derived : Bool) :
    Kin (f.after (.step (.withScope handle derived) : Move α β))
      (s.withScope handle derived).2 := by
  have hlast : s.scopes.all.size < (f.parents ++ [if derived then some (f.scopeOf handle)
      else none]).length := by
    rw [h.size_eq, List.length_append, List.length_singleton]
    omega
  simp only [Family.after, ← h.size_eq]
  cases derived with
  | true =>
    have hmade : Kin { f with parents := f.parents ++ [some (f.scopeOf handle)] }
        { s with scopes := (s.scopes.child (s.scopeOf handle)).2 } := by
      refine h.made ?_ (Array.size_push ..) (s.scopes.lineage_child · _) ?_
        (s.scopes.isCancelled_child · _) ?_
      · rintro parent ⟨⟩
        exact h.ordered.scopeOf_lt handle
      · rw [h.scopeOf_eq]
        rfl
      · rw [h.scopeOf_eq]
        rfl
    exact hmade.addHandle hlast
  | false =>
    have hmade : Kin { f with parents := f.parents ++ [none] }
        { s with scopes := s.scopes.root.2 } :=
      h.made nofun (Array.size_push ..) s.scopes.lineage_root rfl s.scopes.isCancelled_root rfl
    exact hmade.addHandle hlast

theorem Kin.clone (h : Kin f s) (handle : Nat) :
    Kin (f.after (.step (.clone handle) : Move α β)) (s.clone handle).2 := by
  rw [Session.clone, h.scopeOf_eq]
  exact h.addHandle (h.ordered.scopeOf_lt handle)

theorem Kin.move [Std.TransOrd α] (h : Kin f s) (m : Move α β) : Kin (f.after m) (s.move m) := by
  cases m with
  | look handle call => exact h.of_access (Leads.refl.look handle call).access_eq
  | enter call => exact h.of_access rfl
  | conclude call outcome => exact h.of_access rfl
  | step step =>
    cases step with
    | clone handle => exact h.clone handle
    | withScope handle derived => exact h.withScope handle derived
    | cancel handle => exact h.cancel handle
    | request request => exact h.of_access (request.leads_run .refl).access_eq
    | stampede form callers => exact h.of_access (Leads.refl.stampede form callers).access_eq
    | advance ms => exact h.of_access (s.access_stride _ _)
    | startSweeper interval => exact h.of_access (s.access_startSweeper interval)
    | jump _ | sweep | statistics | isClosed | isCancelled _ | describe _ | sameCache _ _ =>
      exact h.of_access rfl

theorem Kin.moveAll [Std.TransOrd α] (h : Kin f s) (moves : List (Move α β)) :
    Kin (f.afterAll moves) (s.moveAll moves) := by
  induction moves generalizing f s with
  | nil => exact h
  | cons m moves ih => exact ih (h.move m)

theorem Kin.permit_of_cancelled (h : Kin f s) (hcancelled : f.IsCancelled handle) :
    s.permit handle = .error .cancelled := by
  have hmark := (h.isCancelled_iff _ (h.ordered.scopeOf_lt handle)).mpr hcancelled
  rw [permit, if_pos h.guarded, Scopes.check, h.scopeOf_eq, if_pos hmark]

theorem Kin.permit_of_not_cancelled (h : Kin f s) (hcancelled : ¬ f.IsCancelled handle) :
    s.permit handle = .ok () := by
  have hmark := mt (h.isCancelled_iff _ (h.ordered.scopeOf_lt handle)).mp hcancelled
  rw [permit, if_pos h.guarded, Scopes.check, h.scopeOf_eq, if_neg hmark]

end Session

end ExpiringCache
