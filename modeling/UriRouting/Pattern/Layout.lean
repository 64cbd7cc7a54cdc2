import Std.Data.HashMap
import UriRouting.Pattern.ByteRow
import UriRouting.Pattern.Plan
/-!
The room that a pattern takes.

A plan is laid out as a machine that reads bytes, once for each direction. Repetitions are written
out, and a set of characters becomes a small machine of its own, whose equal states are shared as far
as a table of limited size remembers them. Here the states are only counted, and a pattern fits if
neither machine is too large.
-/

namespace UriRouting

/-- How much has been laid out: the number of states, and the bytes that they take besides. -/
structure Layout where
  states : Nat
  extra : Nat
  deriving DecidableEq, Repr

namespace Layout

def start : Layout := ⟨0, 0⟩

def room (l : Layout) : Nat := 32 * l.states + l.extra

/-- The most room that a layout may take: ten mebibytes. -/
def maxRoom : Nat := 10 * 0x100000

def isFull (l : Layout) : Bool := maxRoom < l.room

def addStates (l : Layout) (n : Nat) : Layout := { l with states := l.states + n }

def addRanges (l : Layout) (n : Nat) : Layout := ⟨l.states + 1, l.extra + 8 * n⟩

def addFork (l : Layout) (n : Nat) : Layout := ⟨l.states + 1, l.extra + 4 * n⟩

/-- Adds an arrow to a state. Only forks need room for it, others have it from the beginning. -/
def addArrow (l : Layout) (fork : Bool) : Layout :=
  if fork then { l with extra := l.extra + 4 } else l

end Layout

/-! ## Sets of characters -/

/-- A layout with the table of states that can be shared. Each slot of the table holds the state that
was put there last, under a key for all that it does. -/
structure SharedLayout where
  layout : Layout
  slots : Std.HashMap Nat (List Nat × Nat)

namespace SharedLayout

/-- The slot for a key: the numbers are mixed one by one into a word of 64 bits. -/
def slotOf (count : Nat) (key : List Nat) : Nat :=
  let mix (h : UInt64) (n : Nat) : UInt64 := (h ^^^ n.toUInt64) * 0x100000001b3
  (key.foldl mix 0xcbf29ce484222325).toNat % count

/-- The state for a key. If the table of `count` slots does not hold it, it is added with a number of
arrows. -/
def state (count : Nat) (key : List Nat) (arrows : Nat) : StateM SharedLayout Nat := do
  let s ← get
  let slot := slotOf count key
  let found? := (s.slots[slot]?).bind fun (k, id) => if k = key then some id else none
  match found? with
  | some id => return id
  | none =>
    let id := s.layout.states
    set (⟨s.layout.addRanges arrows, s.slots.insert slot (key, id)⟩ : SharedLayout)
    return id

/-- The state that reads some rows and ends in `target`. Rows that begin alike share their beginning;
the fuel bounds the length of the rows. -/
def readRows (target : Nat) : Nat → List ByteRow → StateM SharedLayout Nat
  | 0, _ => return target
  | fuel + 1, rows => do
    let arrows ← (rows.splitBy (·.head? == ·.head?)).mapM fun group => do
      let rests := (group.map List.tail).filter (· ≠ [])
      let next ← if rests = [] then pure target else readRows target fuel rests
      return match group.head?.bind List.head? with
        | some r => [r.first, r.last, next]
        | none => []
    state 10000 arrows.flatten arrows.length

def readBack (target : Nat) (row : ByteRow) : StateM SharedLayout Nat :=
  row.foldlM (fun id r => state 1000 [id, r.first, r.last] 0) target

end SharedLayout

namespace Layout

def addSet (l : Layout) (d : Plan.Direction) (set : CharSet) : Layout :=
  if set.isAscii then (l.addStates 1).addRanges set.ranges.length
  else
    let rows := set.byteRows
    match d with
    | .forward => ((SharedLayout.readRows l.states 4 rows).run ⟨l.addStates 1, ∅⟩).2.layout
    | .backward =>
      let target := l.states + 1
      let run := rows.mapM (SharedLayout.readBack target)
      (run.run ⟨(l.addFork rows.length).addStates 1, ∅⟩).2.layout

/-! ## Words -/

def splitAtEmpty : List (List Nat) → List (List (List Nat))
  | [] => [[]]
  | [] :: words => [] :: splitAtEmpty words
  | word :: words =>
    match splitAtEmpty words with
    | chunk :: chunks => (word :: chunk) :: chunks
    | [] => [[word]]

/-- The words between empty ones. Of several empty words in front of all others only one counts. -/
def chunks (words : List (List Nat)) : List (List (List Nat)) :=
  match words with
  | [] :: words => [] :: splitAtEmpty (words.dropWhile (· = []))
  | words => splitAtEmpty words

/-- Lays out a choice between words as a tree, with fuel for the longest of them. An empty word ends
the choice there, but those before it come first. -/
def addWords : Nat → List (List Nat) → Layout → Layout
  | 0, _, l => l
  | fuel + 1, words, l =>
    let chunks := chunks words
    let addChunk (l : Layout) (chunk : List (List Nat)) : Layout :=
      let leads := (chunk.filterMap List.head?).eraseDups
      let l := leads.foldl (fun l lead =>
        let rests := (chunk.filter (·.head? = some lead)).map List.tail
        if rests.all (· = []) then l else addWords fuel rests l) l
      match leads with
      | [] => l
      | [_] => l.addStates 1
      | _ => l.addRanges leads.length
    (chunks.foldl addChunk l).addFork ((chunks.filter (· ≠ [])).length + (chunks.length - 1))

end Layout

/-! ## Plans -/

/-- What has been laid out, and whether it ends in a fork. -/
structure Laid where
  layout : Layout
  fork : Bool

namespace Laid

/-- Lays out something after what has been laid out, if there is room, and ties the two together. -/
def follow (x : Laid) (f : Layout → Laid) : Laid :=
  if x.layout.isFull then x
  else
    let y := f x.layout
    ⟨y.layout.addArrow x.fork, y.fork⟩

/-- Lays out a number of copies, or as many as there is room for. -/
def copies (f : Layout → Laid) : Nat → Laid → Laid
  | 0, x => x
  | n + 1, x => if x.layout.isFull then x else copies f n (x.follow f)

def close (x : Laid) : Laid := ⟨(x.layout.addArrow x.fork).addStates 1, false⟩

def loop (x : Laid) : Laid := ⟨(x.layout.addArrow x.fork).addFork 1, true⟩

/-- Lays out a repetition. `blank` tells whether what is repeated can match the empty text, which must
not be repeated for ever. -/
def repetition (f : Layout → Laid) (blank : Bool) (least : Nat) (most : Option Nat) (l : Layout) :
    Laid :=
  match least, most with
  | 0, none =>
    if blank then
      let x := f l
      ⟨(((x.layout.addArrow x.fork).addFork 2).addFork 2).addStates 1, false⟩
    else
      let x := f (l.addFork 1)
      ⟨x.layout.addArrow x.fork, true⟩
  | least, none => (copies f least ⟨l, false⟩).loop
  | 0, some 1 => (f (l.addFork 2)).close
  | least, some most =>
    let x : Laid := if least = 0 then ⟨l.addStates 1, false⟩ else copies f least ⟨l, false⟩
    if least = most then x else (copies (fun l => f (l.addFork 2)) (most - least) x).close

end Laid

namespace Plan

def bytes (d : Direction) (cs : List Char) : List Nat :=
  d.order ((String.ofList cs).toUTF8.toList.map UInt8.toNat)

def text? : Plan → Option (List Char)
  | text cs => some cs
  | _ => none

mutual

def lay (d : Direction) : Plan → Layout → Laid
  | text cs, l => ⟨l.addStates (bytes d cs).length, false⟩
  | chars set, l => ⟨l.addSet d set, false⟩
  | assertion _, l => ⟨l.addStates 1, false⟩
  | repeated p least most, l =>
    Laid.repetition (fun l => lay d p l) (p.shortest?.getD 0 = 0) least most l
  | captured p, l =>
    match d with
    | .forward => (lay d p (l.addStates 1)).close
    | .backward => lay d p l
  | row ps, l => if ps.isEmpty then ⟨l.addStates 1, false⟩ else layRow d ps ⟨l, false⟩
  | choice ps, l =>
    match ps.mapM text? with
    | some texts =>
      let words := texts.map (bytes d)
      let longest := (words.map List.length).foldl max 0
      ⟨Layout.addWords (longest + 1) words (l.addStates 1), false⟩
    | none => ⟨layChoice d ps.length 0 ps l, false⟩

def layRow (d : Direction) : List Plan → Laid → Laid
  | [], x => x
  | p :: ps, x =>
    match d with
    | .forward => layRow d ps (x.follow fun l => lay d p l)
    | .backward => (layRow d ps x).follow fun l => lay d p l

/-- Lays out the alternatives of a choice between `count` of them, from the one with the number `i`.
The fork in front of them and the end behind them come after the first two. -/
def layChoice (d : Direction) (count i : Nat) : List Plan → Layout → Layout
  | [], l => l
  | p :: ps, l =>
    let x := if l.isFull then ⟨l, false⟩ else lay d p l
    let l := x.layout.addArrow x.fork
    layChoice d count (i + 1) ps (if i = 1 then (l.addFork count).addStates 1 else l)

end

/-- The layout of a whole machine. In front of a plan that is not anchored it passes over any bytes,
and behind it stands the state in which the plan has matched. -/
def layout (p : Plan) (d : Direction) : Layout :=
  let start := if p.isAnchored d then Layout.start.addStates 1
    else ((Layout.start.addFork 2).addStates 1).addRanges 1
  (lay d (captured p) start).close.layout

def fits (p : Plan) : Bool := !(p.layout .backward).isFull && !(p.layout .forward).isFull

end Plan

end UriRouting
