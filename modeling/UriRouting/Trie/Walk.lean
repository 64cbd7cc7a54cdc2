import UriRouting.Trie.Basic
/-!
Walking through a trie.

A walk follows every edge that takes the next segment, the literal one first, and goes back for the
others. Each child that is tried costs a step of its budget, and a walk without steps left breaks
off. A visitor sees every end that the walk reaches and may break it off too. What has been captured
on the way is one stack: a pattern pushes its values, and they are dropped when the walk comes back.
-/

namespace UriRouting

structure Progress (σ : Type) where
  stepsLeft : Nat
  exhausted : Bool := false
  seen : σ

structure Walk (σ : Type) extends Progress σ where
  captures : Captures := []

/-- An action of a walk. An error breaks the walk off. -/
abbrev WalkM (σ α : Type) := EStateM Unit (Walk σ) α

/-- Who looks on at a walk, and keeps a state of type `σ`. -/
structure Visitor (ε σ : Type) where
  /-- Sees an end with what was captured on the way. An error breaks the walk off. -/
  visit : ε → Captures → EStateM Unit σ Unit
  hear : Evaluation → σ → σ

namespace Walk

variable {ε σ : Type}

def step : WalkM σ Unit := fun w =>
  match w.stepsLeft with
  | 0 => .error () { w with exhausted := true }
  | n + 1 => .ok () { w with stepsLeft := n }

def arrive (v : Visitor ε σ) (found : ε) : WalkM σ Unit := fun w =>
  match v.visit found w.captures w.seen with
  | .ok _ seen => .ok () { w with seen }
  | .error _ seen => .error () { w with seen }

def report (v : Visitor ε σ) (asked : List Evaluation) : WalkM σ Unit :=
  modify fun w => { w with seen := asked.foldl (fun seen e => v.hear e seen) w.seen }

/-- Goes on with `next` if a pattern takes a segment, and drops the captures afterwards. -/
def capturing (v : Visitor ε σ) (p : SegmentPattern) (segment : String) (next : WalkM σ Unit) :
    WalkM σ Unit := do
  report v (p.evaluate segment)
  let before := (← get).captures
  let (taken, captures) := p.capture segment before
  modify fun w => { w with captures }
  if taken then
    next
    modify fun w => { w with captures := w.captures.take before.length }

end Walk

/-- Follows segments from a node. `arrive` acts where the segments end. -/
def Trie.descend {β ε σ : Type} (v : Visitor ε σ) (arrive : β → WalkM σ Unit) :
    List String → Trie β → WalkM σ Unit
  | [], node leaf _ _ => arrive leaf
  | segment :: rest, node _ literals patterns => do
    (literals.find? segment).forM fun child => do
      Walk.step
      descend v arrive rest child
    patterns.forM fun (p, child) => do
      Walk.step
      Walk.capturing v p segment (descend v arrive rest child)

end UriRouting
