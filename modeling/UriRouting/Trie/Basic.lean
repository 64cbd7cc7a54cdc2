import UriRouting.TextIndex
import UriRouting.Trie.Key
/-!
Tries with keys on their edges and a leaf value at every node.

Below a node, literal keys are in an index and patterns in the order in which they came. Inserting
follows the keys that are there and adds what is missing.
-/

namespace UriRouting

/-- A node with everything below it. -/
inductive Trie (β : Type)
  | node (leaf : β) (literals : TextIndex (Trie β)) (patterns : List (SegmentPattern × Trie β))

namespace Trie

variable {β : Type}

def single (leaf : β) : Trie β := node leaf .empty []

def leaf : Trie β → β
  | node leaf _ _ => leaf

/-! ## Inserting -/

/-- Sets what is below a pattern to what `f` makes of what was there. A new pattern comes last. -/
def alterPattern (p : SegmentPattern) (f : Option (Trie β) → Trie β) :
    List (SegmentPattern × Trie β) → List (SegmentPattern × Trie β)
  | [] => [(p, f none)]
  | (q, t) :: rest =>
    if q.same p then (q, f (some t)) :: rest else (q, t) :: alterPattern p f rest

/-- Updates the value at the end of a row of keys. Nodes on the way that are missing get the value
`fresh`. -/
def insert (fresh : β) (update : β → β) : List Key → Trie β → Trie β
  | [], node leaf literals patterns => node (update leaf) literals patterns
  | .literal text :: keys, node leaf literals patterns =>
    node leaf (literals.alter text (single fresh) (insert fresh update keys)) patterns
  | .pattern p :: keys, node leaf literals patterns =>
    node leaf literals
      (alterPattern p (fun t? => insert fresh update keys (t?.getD (single fresh))) patterns)

def find? : List Key → Trie β → Option β
  | [], node leaf _ _ => some leaf
  | .literal text :: keys, node _ literals _ => (literals.find? text).bind (find? keys)
  | .pattern p :: keys, node _ _ patterns =>
    (patterns.find? fun child => child.1.same p).bind fun child => find? keys child.2

/-! ## Counting -/

mutual

/-- The number of nodes, with those that `extra` counts for each value. -/
def nodeCount (extra : β → Nat) : Trie β → Nat
  | node leaf ⟨_, ⟨children⟩⟩ patterns =>
    1 + extra leaf + literalCount extra children + patternCount extra patterns

def literalCount (extra : β → Nat) : List (Trie β) → Nat
  | [] => 0
  | t :: rest => t.nodeCount extra + literalCount extra rest

def patternCount (extra : β → Nat) : List (SegmentPattern × Trie β) → Nat
  | [] => 0
  | (_, t) :: rest => t.nodeCount extra + patternCount extra rest

end

end Trie

end UriRouting
