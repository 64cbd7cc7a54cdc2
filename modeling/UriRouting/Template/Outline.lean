import UriRouting.Template.Part
/-!
The outline of a template: its parts as numbered nodes of a tree.

Nodes are numbered in the order in which they are added, the root first. Each node knows its parent
and its children, so that the tree can be walked both ways by number.
-/

namespace UriRouting

/-! ## Nodes -/

inductive NodeKind
  | root
  | host
  | path
  | delimiter
  | text
  | var
  | rule
  | params
  | optional
  deriving DecidableEq, Repr

def NodeKind.name : NodeKind → String
  | root => "Root"
  | host => "Host"
  | path => "Path"
  | delimiter => "SegmentDelimiter"
  | text => "Text"
  | var => "Variable"
  | rule => "VariableConstraint"
  | params => "VariableConstraintParameters"
  | optional => "OptionalRoutePart"

def NodeKind.all : List NodeKind :=
  [root, host, path, delimiter, text, var, rule, params, optional]

inductive NodeValue
  | none
  | text (value : String)
  | params (values : List Param)
  deriving DecidableEq, Repr

structure OutlineNode where
  kind : NodeKind
  value : NodeValue
  parent? : Option Nat
  children : Array Nat
  deriving DecidableEq, Repr

namespace OutlineNode

def text? (n : OutlineNode) : Option String :=
  match n.value with
  | .text s => some s
  | _ => none

def params? (n : OutlineNode) : Option (List Param) :=
  match n.value with
  | .params ps => some ps
  | _ => none

end OutlineNode

/-! ## Trees -/

/-- A tree of nodes, stored by number. -/
structure Outline where
  nodes : Array OutlineNode
  deriving DecidableEq, Repr

namespace Outline

def start : Outline := ⟨#[⟨.root, .none, none, #[]⟩]⟩

def size (o : Outline) : Nat := o.nodes.size

def node? (o : Outline) (id : Nat) : Option OutlineNode := o.nodes[id]?

def children (o : Outline) (id : Nat) : List Nat :=
  match o.node? id with
  | some n => n.children.toList
  | none => []

/-- Adds a node as the last child of `parent`. Its number is the size of the tree before. -/
def addChild (o : Outline) (parent : Nat) (kind : NodeKind) (value : NodeValue) : Outline :=
  let id := o.size
  let nodes := o.nodes.modify parent fun n => { n with children := n.children.push id }
  ⟨nodes.push ⟨kind, value, some parent, #[]⟩⟩

@[simp] theorem size_start : start.size = 1 := rfl

@[simp] theorem size_addChild (o : Outline) (parent : Nat) (kind : NodeKind) (value : NodeValue) :
    (o.addChild parent kind value).size = o.size + 1 := by
  simp [addChild, size]

def childOfKind? (o : Outline) (id : Nat) (kind : NodeKind) : Option Nat :=
  (o.children id).find? fun c => (o.node? c).any (·.kind = kind)

def host? (o : Outline) : Option Nat := o.childOfKind? 0 .host

def path? (o : Outline) : Option Nat := o.childOfKind? 0 .path

def lastChild? (o : Outline) (id : Nat) : Option OutlineNode :=
  (o.children id).getLast?.bind o.node?

/-- A tour through a tree: the nodes that are still to be visited, the next one first, and those that have been. -/
structure Tour where
  stack : List Nat
  visited : List Nat

/-- Visits the next node, and its children before what else is on the stack. A tour with an empty stack is over. -/
def tour (o : Outline) : Nat → Tour → Tour
  | 0, t => t
  | _ + 1, ⟨[], visited⟩ => ⟨[], visited⟩
  | steps + 1, ⟨next :: rest, visited⟩ => o.tour steps ⟨o.children next ++ rest, visited ++ [next]⟩

/-- Every node below `id`, depth first. A tour visits no node twice, so that as many steps as there are nodes will
do. -/
def descendants (o : Outline) (id : Nat) : List Nat := (o.tour o.size ⟨o.children id, []⟩).visited

/-! ## Outlines of templates -/

def addRule (o : Outline) (id : Nat) (r : RuleCall) : Outline :=
  let rule := o.size
  let o := o.addChild id .rule (.text r.rule)
  match r.params? with
  | none => o
  | some ps => o.addChild rule .params (.params ps)

mutual

def addPart (side : Side) (id : Nat) (o : Outline) : Part Slot → Outline
  | .delimiter => o.addChild id .delimiter (.text (String.singleton side.delimiter))
  | .text s => o.addChild id .text (.text s)
  | .var slot => slot.rules.foldl (fun o' r => o'.addRule o.size r) (o.addChild id .var (.text slot.name))
  | .optional parts => addParts side o.size (o.addChild id .optional .none) parts

def addParts (side : Side) (id : Nat) (o : Outline) : List (Part Slot) → Outline
  | [] => o
  | p :: rest => addParts side id (addPart side id o p) rest

end

def ofTemplate (t : Template) : Outline :=
  let o := match t.host? with
    | none => start
    | some parts => addParts .host start.size (start.addChild 0 .host .none) parts
  addParts .path o.size (o.addChild 0 .path .none) t.path

end Outline

end UriRouting
