import UriRouting.Cache.Basic
/-!
Loading a value through a cache.

A load that finds no value takes the lock of its loader and reads once more, as another load may have
stored one in the meantime, and only then builds the value. What a build produces is stored; a build
that fails or breaks off leaves the cache as it is. One that breaks off also leaves the lock poisoned,
which no later load minds.
-/

namespace UriRouting

inductive BuildResult (ρ ε : Type)
  | built (value : ρ)
  | failed (error : ε)
  | aborted
  deriving DecidableEq, Repr

inductive LoadResult (ρ ε : Type)
  | cached (value : ρ)
  | published (value : ρ)
  | failed (error : ε)
  | aborted
  deriving DecidableEq, Repr

namespace LoadResult

variable {ρ ε : Type}

def builds : LoadResult ρ ε → Nat
  | cached _ => 0
  | _ => 1

def value? : LoadResult ρ ε → Option ρ
  | cached v | published v => some v
  | _ => none

def isAborted : LoadResult ρ ε → Bool
  | aborted => true
  | _ => false

end LoadResult

namespace Cache

variable {ρ ε : Type}

def publish (c : Cache ρ) : BuildResult ρ ε → LoadResult ρ ε × Cache ρ
  | .built v => (.published v, c.store v)
  | .failed e => (.failed e, c)
  | .aborted => (.aborted, c)

/-- What a load comes to. -/
def load (c : Cache ρ) (build : Unit → BuildResult ρ ε) : LoadResult ρ ε × Cache ρ :=
  match c.read with
  | (some v, c) => (.cached v, c)
  | (none, c) =>
    match c.read with
    | (some v, c) => (.cached v, c)
    | (none, c) => c.publish (build ())

/-- The part of a load behind the lock, with a build that may change the world around it. -/
def fill {σ : Type} (c : Cache ρ) (build : σ → BuildResult ρ ε × σ) (world : σ) :
    (LoadResult ρ ε × Cache ρ) × σ :=
  match c.read with
  | (some v, c) => ((.cached v, c), world)
  | (none, c) =>
    let (result, world) := build world
    (c.publish result, world)

end Cache

/-- A lock with room for one holder. It is poisoned once a holder has broken off. -/
structure Lock where
  held : Bool := false
  poisoned : Bool := false
  deriving DecidableEq, Repr

namespace Lock

/-- Takes the lock, with an error if it is poisoned; none waits for a holder that never lets go. -/
def take? (l : Lock) : Option (Except Lock Lock) :=
  if l.held then none
  else if l.poisoned then some (.error { l with held := true })
  else some (.ok { l with held := true })

def release (l : Lock) (broken : Bool) : Lock := ⟨false, l.poisoned || broken⟩

/-- The lock that was taken, poisoned or not. -/
def ofTaken : Except Lock Lock → Lock
  | .ok l | .error l => l

end Lock

structure Loader (ρ : Type) where
  cache : Cache ρ
  lock : Lock := {}
  deriving DecidableEq, Repr

namespace Loader

variable {ρ ε σ : Type}

def new (cache : Cache ρ) : Loader ρ := { cache }

/-- A load, and the world after it; none waits for ever. -/
def load (l : Loader ρ) (build : σ → BuildResult ρ ε × σ) (world : σ) :
    Option (LoadResult ρ ε × Loader ρ × σ) :=
  match l.cache.read with
  | (some v, cache) => some (.cached v, { l with cache }, world)
  | (none, cache) =>
    l.lock.take?.map fun taken =>
      let ((result, cache), world) := cache.fill build world
      (result, ⟨cache, (Lock.ofTaken taken).release result.isAborted⟩, world)

end Loader

end UriRouting
