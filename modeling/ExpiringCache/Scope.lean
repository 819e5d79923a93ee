import ExpiringCache.Fault

/-!
# Scopes

A scope is what a caller may cancel to have its further operations refused. Scopes form trees:
cancelling one cancels all scopes derived from it, directly or through others, and no other, and a
scope derived from a cancelled one is cancelled from the start. Nothing undoes a cancellation.

`Scopes` holds every scope made so far; a scope is named by its number.
-/

namespace ExpiringCache

/-- One scope: itself and those it derives from, the nearest first, and whether it is cancelled. -/
structure Scope where
  lineage : List Nat
  cancelled : Bool
deriving DecidableEq, Repr

/-- Every scope made so far. -/
structure Scopes where
  all : Array Scope
deriving DecidableEq

namespace Scopes

/-- No scope yet. -/
def empty : Scopes := ⟨#[]⟩

/-- The scopes that `id` derives from, `id` itself first. -/
def lineage (s : Scopes) (id : Nat) : List Nat :=
  (s.all[id]?.map (·.lineage)).getD []

/-- The scope is cancelled, itself or through one that it derives from. -/
def isCancelled (s : Scopes) (id : Nat) : Bool :=
  (s.all[id]?.map (·.cancelled)).getD false

/-- A new scope that derives from none; answers with its number. -/
def root (s : Scopes) : Nat × Scopes :=
  (s.all.size, ⟨s.all.push ⟨[s.all.size], false⟩⟩)

/-- A new scope derived from `parent`. -/
def child (s : Scopes) (parent : Nat) : Nat × Scopes :=
  (s.all.size, ⟨s.all.push ⟨s.all.size :: s.lineage parent, s.isCancelled parent⟩⟩)

/-- Cancels a scope and all that derive from it. -/
def cancel (s : Scopes) (id : Nat) : Scopes :=
  ⟨s.all.map fun scope =>
    { scope with cancelled := scope.cancelled || scope.lineage.contains id }⟩

/-- Refuses work in a cancelled scope. -/
def check (s : Scopes) (id : Nat) : Except Fault Unit :=
  if s.isCancelled id then .error .cancelled else .ok ()

/-- A scope on one line. -/
def describe (s : Scopes) (id : Nat) : String :=
  "Context \x7b token: CancellationToken \x7b is_cancelled: " ++
    (if s.isCancelled id then "true" else "false") ++ " \x7d \x7d"

end Scopes

end ExpiringCache
