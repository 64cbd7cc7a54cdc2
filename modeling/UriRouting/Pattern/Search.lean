import UriRouting.Pattern.Plan
/-!
Finding patterns in texts.

A text is read once, character by character. A tracker is a plan that remembers at each of its
characters whether some match that has begun has just read it there. Reading the next character moves
these marks on; so the work for a character depends on the pattern and not on the text before it.
-/

namespace UriRouting

/-! ## Trackers -/

inductive Tracker
  | empty
  /-- `reached` says whether the last character was read here. -/
  | char (set : CharSet) (reached : Bool)
  | assertion (a : Assertion)
  | concat (first second : Tracker)
  | either (first second : Tracker)
  | star (t : Tracker)
  deriving Repr

namespace Tracker

def copies (t : Tracker) (n : Nat) : Tracker :=
  if n = 0 then empty
  else if n = 1 then t
  else concat (t.copies (n / 2)) (t.copies (n - n / 2))
termination_by n

def ofText : List Char → Tracker
  | [] => empty
  | c :: cs => concat (char (.single c) false) (ofText cs)

/-- The tracker of a repetition. It is written out as far as it has a limit. -/
def repeated (t : Tracker) (least : Nat) : Option Nat → Tracker
  | none => concat (t.copies least) (star t)
  | some most => concat (t.copies least) ((either empty t).copies (most - least))

mutual

def ofPlan : Plan → Tracker
  | .text cs => ofText cs
  | .chars set => char set false
  | .assertion a => assertion a
  | .repeated p least most => (ofPlan p).repeated least most
  | .captured p => ofPlan p
  | .row ps => ofRow ps
  | .choice ps => ofChoice ps

def ofRow : List Plan → Tracker
  | [] => empty
  | p :: ps => concat (ofPlan p) (ofRow ps)

def ofChoice : List Plan → Tracker
  | [] => char .empty false
  | p :: ps => either (ofPlan p) (ofChoice ps)

end

/-! ## Reading -/

/-- Whether a match passes the whole pattern at a place without reading anything. -/
def skips (x : Place) : Tracker → Bool
  | empty => true
  | char _ _ => false
  | assertion a => a.holds x
  | concat p q => p.skips x && q.skips x
  | either p q => p.skips x || q.skips x
  | star _ => true

def ends (x : Place) : Tracker → Bool
  | empty => false
  | char _ reached => reached
  | assertion _ => false
  | concat p q => q.ends x || (p.ends x && q.skips x)
  | either p q => p.ends x || q.ends x
  | star p => p.ends x

/-- Reads the character `c` after a place. Matches go on from the marks, and where `enter` holds also
from the start of the pattern. -/
def read (x : Place) (c : Char) (enter : Bool) : Tracker → Tracker
  | empty => empty
  | char set _ => char set (enter && set.contains c)
  | assertion a => assertion a
  | concat p q => concat (p.read x c enter) (q.read x c (p.ends x || (enter && p.skips x)))
  | either p q => either (p.read x c enter) (q.read x c enter)
  | star p => star (p.read x c (enter || p.ends x))

/-- Whether a match ends in the text after `before?`, where matches begin at every place. -/
def search (t : Tracker) (before? : Option Char) : List Char → Bool
  | [] => t.skips ⟨before?, none⟩ || t.ends ⟨before?, none⟩
  | c :: cs =>
    t.skips ⟨before?, some c⟩ || t.ends ⟨before?, some c⟩
      || (t.read ⟨before?, some c⟩ c true).search (some c) cs

end Tracker

def Pattern.foundIn (p : Pattern) (text : String) : Bool :=
  (Tracker.ofPlan (Plan.ofPattern p)).search none text.toList

end UriRouting
