import UriRouting.Pattern.Basic
/-!
Plans of patterns.

A plan says how a pattern is to be laid out. It is simpler than the pattern: characters in a row are
one text, rows within rows and choices within choices are dissolved, a choice between characters is a
set, and what all alternatives begin with stands in front of the choice.
-/

namespace UriRouting

/-- A pattern in the shape in which it is laid out. -/
inductive Plan
  | text (cs : List Char)
  | chars (set : CharSet)
  | assertion (a : Assertion)
  | repeated (p : Plan) (least : Nat) (most : Option Nat)
  | captured (p : Plan)
  /-- Parts one after the other; the empty row matches the empty text. -/
  | row (ps : List Plan)
  | choice (ps : List Plan)
  deriving Repr

namespace Plan

/-! ## Lengths -/

mutual

def shortest? : Plan → Option Nat
  | text cs => some cs.length
  | chars set => if set = .empty then none else some 1
  | assertion _ => some 0
  | repeated p least _ => (shortest? p).map (· * least)
  | captured p => shortest? p
  | row ps => totalShortest? ps
  | choice ps => leastShortest? ps

def totalShortest? : List Plan → Option Nat
  | [] => some 0
  | p :: ps => do return (← shortest? p) + (← totalShortest? ps)

def leastShortest? : List Plan → Option Nat
  | [] => none
  | [p] => shortest? p
  | p :: ps => do return min (← shortest? p) (← leastShortest? ps)

end

mutual

def isBlank : Plan → Bool
  | text cs => cs = []
  | chars _ => false
  | assertion _ => true
  | repeated p _ _ => isBlank p
  | captured p => isBlank p
  | row ps => areBlank ps
  | choice ps => areBlank ps

def areBlank : List Plan → Bool
  | [] => true
  | p :: ps => isBlank p && areBlank ps

end

/-! ## Ends -/

/-- The two ways in which a text can be read. -/
inductive Direction
  | forward
  | backward
  deriving DecidableEq, Repr

def Direction.order {α : Type} : Direction → List α → List α
  | forward, xs => xs
  | backward, xs => xs.reverse

/-- The assertion that the text begins, seen in a direction. -/
def Direction.isStart : Direction → Assertion → Bool
  | forward, .textStart => true
  | backward, .textEnd => true
  | _, _ => false

/-- Whether a row is anchored, from each of its parts: whether it matches the empty text only, and
whether it is anchored. Only what comes before the first text counts. -/
def isAnchoredRow : List (Bool × Bool) → Bool
  | [] => false
  | (blank, anchored) :: rest => anchored || (blank && isAnchoredRow rest)

mutual

def isAnchored (d : Direction) : Plan → Bool
  | text _ => false
  | chars _ => false
  | assertion a => d.isStart a
  | repeated p least _ => 0 < least && isAnchored d p
  | captured p => isAnchored d p
  | row ps => isAnchoredRow (d.order (anchors d ps))
  | choice ps => (anchors d ps).all (·.2)

def anchors (d : Direction) : List Plan → List (Bool × Bool)
  | [] => []
  | p :: ps => (isBlank p, isAnchored d p) :: anchors d ps

end

/-! ## Comparison -/

mutual

/-- Whether two plans are the same. What captures is the same as nothing else. -/
def same : Plan → Plan → Bool
  | text cs, text ds => cs = ds
  | chars s, chars t => s = t
  | assertion a, assertion b => a = b
  | repeated p least most, repeated q least' most' =>
    least = least' && most = most' && same p q
  | row ps, row qs => areSame ps qs
  | choice ps, choice qs => areSame ps qs
  | _, _ => false

def areSame : List Plan → List Plan → Bool
  | [], [] => true
  | p :: ps, q :: qs => same p q && areSame ps qs
  | _, _ => false

end

/-! ## Rows -/

def empty : Plan := row []

def parts : Plan → List Plan
  | row ps => ps
  | p => [p]

/-- Puts a part in front of a row. Texts that meet become one. -/
def prepend (p : Plan) (ps : List Plan) : List Plan :=
  match p, ps with
  | text cs, text ds :: ps => text (cs ++ ds) :: ps
  | p, ps => p :: ps

def ofRow : List Plan → Plan
  | [p] => p
  | ps => row ps

def append (p q : Plan) : Plan := ofRow (p.parts.foldr prepend q.parts)

def ofText (cs : List Char) : Plan := if cs = [] then empty else text cs

/-! ## Sets and choices -/

/-- The plan of a set. A set of one character is a text. -/
def ofSet (set : CharSet) : Plan :=
  match set.single? with
  | some c => text [c]
  | none => chars set

def char? : Plan → Option Char
  | text [c] => some c
  | _ => none

def set? : Plan → Option CharSet
  | chars set => some set
  | _ => none

def alternatives : Plan → List Plan
  | choice ps => ps
  | p => [p]

/-- The choice between plans. Characters make a set, and so do sets. -/
def ofChoice (ps : List Plan) : Plan :=
  match ps, ps.mapM char?, ps.mapM set? with
  | [p], _, _ => p
  | _, some cs, _ => ofSet (.unions (cs.map .single))
  | _, _, some sets => ofSet (.unions sets)
  | _, _, _ => choice ps

def sharedParts : List Plan → List Plan → List Plan
  | p :: ps, q :: qs => if same p q then p :: sharedParts ps qs else []
  | _, _ => []

def row? : Plan → Option (List Plan)
  | row ps => some ps
  | _ => none

def shared (ps : List Plan) : List Plan :=
  match ps.mapM row? with
  | some (first :: rest) => rest.foldl sharedParts first
  | _ => []

/-- A choice between plans. What all of them begin with comes first. -/
def either (ps : List Plan) : Plan :=
  let ps := ps.flatMap alternatives
  match ps with
  | [p] => p
  | _ =>
    let start := shared ps
    if start.isEmpty then ofChoice ps
    else
      let ends := ps.flatMap fun p => (ofRow (p.parts.drop start.length)).alternatives
      (row start).append (ofChoice ends)

/-! ## Repetition -/

/-- A plan repeated. More than one empty text is one empty text. -/
def repeatedly (p : Plan) (least : Nat) (most : Option Nat) : Plan :=
  let (least, most) :=
    if p.isBlank then (min least 1, some (min (most.getD 1) 1)) else (least, most)
  if most = some 0 then empty
  else if least = 1 && most = some 1 then p
  else repeated p least most

/-! ## Patterns -/

def ofAlternatives : Pattern → List Plan
  | .empty => [empty]
  | .char set => [ofSet set]
  | .assertion a => [assertion a]
  | .concat p q => [(either (ofAlternatives p)).append (either (ofAlternatives q))]
  | .either p q => either (ofAlternatives p) :: ofAlternatives q
  | .repeated p least most => [(either (ofAlternatives p)).repeatedly least most]
  | .group false p => [either (ofAlternatives p)]
  | .group true p => [captured (either (ofAlternatives p))]

def ofPattern (p : Pattern) : Plan := either (ofAlternatives p)

end Plan

end UriRouting
