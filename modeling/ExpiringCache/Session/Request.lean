import ExpiringCache.Session.Basic

/-!
# Requests

What callers ask of a session, with loaders as data: a loader may set the wall clock, make further
requests, and then ends with a value, with nothing, or with a fault. `Request.run` carries a
request out, the requests inside its loader included; its `Reply` says whether the loader ran.

`Session.stampede` runs computing calls of several callers at the same time on one thread. Every
loader lets the others go on before it does anything, which leaves one possible order:

* without a lock, all callers look, and then those that missed load and store one after the other,
  the last to look first;
* with a lock, callers look one after the other until one takes the lock; the others wait for it,
  then they all look, and those that missed take the lock one after the other.
-/

namespace ExpiringCache

/-- A loader: what it does to the wall clock, what it asks for meanwhile, and how it ends. -/
structure Loader (ρ β : Type) where
  shift : Int
  inner : List ρ
  outcome : Except Fault (Option β)

/-- What a caller asks for. -/
inductive Request (α β : Type) where
  /-- One operation. -/
  | plain (handle : Nat) (op : Operation α β)
  /-- Looks up every key in turn, for a number of rounds. -/
  | probe (handle : Nat) (keys : List α) (rounds : Nat)
  /-- A computing call with its loader. -/
  | compute (handle : Nat) (call : Call α) (loader : Loader (Request α β) β)

/-- What a request is answered with. -/
inductive Reply (α β : Type) where
  | answered (result : Except Fault (Answer α β))
  /-- How many lookups hit and missed. -/
  | probed (result : Except Fault (Nat × Nat))
  /-- The result, whether the loader ran, and the replies to what it asked for. -/
  | computed (result : Except Fault (Answer α β)) (called : Bool) (inner : List (Reply α β))

namespace Session

variable {α β : Type} [Ord α] [Std.TransOrd α]

/-! ## Probing -/

/-- Looks up keys, adding to the counts of hits and misses; the first fault ends it. -/
def probeKeys (handle : Nat) :
    List α → Nat × Nat → Session α β → Except Fault (Nat × Nat) × Session α β
  | [], counts, s => (.ok counts, s)
  | key :: keys, counts, s =>
    let got := s.perform handle (.get key)
    match got.1 with
    | .error fault => (.error fault, got.2)
    | .ok (.value (some _)) => probeKeys handle keys (counts.1 + 1, counts.2) got.2
    | .ok _ => probeKeys handle keys (counts.1, counts.2 + 1) got.2

/-- The same for a number of rounds. -/
def probeRounds (handle : Nat) (keys : List α) :
    Nat → Nat × Nat → Session α β → Except Fault (Nat × Nat) × Session α β
  | 0, counts, s => (.ok counts, s)
  | rounds + 1, counts, s =>
    let round := s.probeKeys handle keys counts
    match round.1 with
    | .error fault => (.error fault, round.2)
    | .ok counts => probeRounds handle keys rounds counts round.2

/-! ## Computing -/

/-- The part of a call from its loader on. -/
def load (s : Session α β) (call : Call α) (shift : Int)
    (inner : Session α β → List (Reply α β) × Session α β)
    (outcome : Except Fault (Option β)) : Reply α β × Session α β :=
  let asked := inner (s.shiftWall shift)
  let ended := asked.2.conclude call outcome
  (.computed ended.1 true asked.1, ended.2)

/-- The part of a call after its first look. -/
def resume (s : Session α β) (call : Call α) (phase : Phase α β) (shift : Int)
    (inner : Session α β → List (Reply α β) × Session α β)
    (outcome : Except Fault (Option β)) : Reply α β × Session α β :=
  match phase with
  | .finished result => (.computed result false [], s)
  | .loading => s.load call shift inner outcome
  | .waiting =>
    let entered := s.enter call
    match entered.1 with
    | .finished result => (.computed result false [], entered.2)
    | _ => entered.2.load call shift inner outcome

end Session

namespace Request

variable {α β : Type} [Ord α] [Std.TransOrd α]

mutual

/-- Carries a request out. -/
def run : Request α β → Session α β → Reply α β × Session α β
  | .plain handle op, s =>
    let done := s.perform handle op
    (.answered done.1, done.2)
  | .probe handle keys rounds, s =>
    let done := s.probeRounds handle keys rounds (0, 0)
    (.probed done.1, done.2)
  | .compute handle call ⟨shift, inner, outcome⟩, s =>
    let looked := s.look handle call
    looked.2.resume call looked.1 shift (runAll inner) outcome

/-- Carries requests out one after the other. -/
def runAll : List (Request α β) → Session α β → List (Reply α β) × Session α β
  | [], s => ([], s)
  | request :: requests, s =>
    let one := run request s
    let rest := runAll requests one.2
    (one.1 :: rest.1, rest.2)

end

end Request

/-! ## Stampedes -/

/-- One of several callers of the same operation. -/
structure Caller (α β : Type) where
  handle : Nat
  key : α
  lifetime : Lifetime
  loader : Loader (Request α β) β

namespace Session

variable {α β : Type} [Ord α] [Std.TransOrd α]

/-- The part of a caller's call after its first look. -/
def resumeCaller (s : Session α β) (form : Form) (caller : Caller α β) (phase : Phase α β) :
    Reply α β × Session α β :=
  s.resume ⟨form, caller.key, caller.lifetime⟩ phase caller.loader.shift
    (Request.runAll caller.loader.inner) caller.loader.outcome

/-- All callers look, in order. -/
def lookAll (form : Form) :
    List (Caller α β) → Session α β → List (Caller α β × Phase α β) × Session α β
  | [], s => ([], s)
  | caller :: callers, s =>
    let looked := s.look caller.handle ⟨form, caller.key, caller.lifetime⟩
    let rest := lookAll form callers looked.2
    ((caller, looked.1) :: rest.1, rest.2)

/-- All callers go on after their look, in order and one after the other. -/
def resumeAll (form : Form) :
    List (Caller α β × Phase α β) → Session α β → List (Reply α β) × Session α β
  | [], s => ([], s)
  | (caller, phase) :: callers, s =>
    let one := s.resumeCaller form caller phase
    let rest := resumeAll form callers one.2
    (one.1 :: rest.1, rest.2)

/-- Callers look one after the other until one has to wait for the lock. That one goes on to its
end; then the rest look, and go on. -/
def stampedeLocked (form : Form) :
    List (Caller α β) → Session α β → List (Reply α β) × Session α β
  | [], s => ([], s)
  | caller :: callers, s =>
    let looked := s.look caller.handle ⟨form, caller.key, caller.lifetime⟩
    let one := looked.2.resumeCaller form caller looked.1
    match looked.1 with
    | .finished _ =>
      let rest := stampedeLocked form callers one.2
      (one.1 :: rest.1, rest.2)
    | _ =>
      let others := lookAll form callers one.2
      let rest := resumeAll form others.1 others.2
      (one.1 :: rest.1, rest.2)

/-- All callers look; then they go on, the last one first. -/
def stampedeUnlocked (form : Form) (callers : List (Caller α β)) (s : Session α β) :
    List (Reply α β) × Session α β :=
  let looked := lookAll form callers s
  let rest := resumeAll form looked.1.reverse looked.2
  (rest.1.reverse, rest.2)

/-- Several callers of one computing operation at the same time. -/
def stampede (s : Session α β) (form : Form) (callers : List (Caller α β)) :
    List (Reply α β) × Session α β :=
  if form.locks then stampedeLocked form callers s else stampedeUnlocked form callers s

end Session

end ExpiringCache
