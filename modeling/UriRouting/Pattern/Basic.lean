import UriRouting.Pattern.CharSet
/-!
Patterns on texts, and how deep their parts are nested.
-/

namespace UriRouting

/-! ## Places -/

/-- A place in a text: the characters before and after it, absent at the ends of the text. -/
structure Place where
  before? : Option Char
  after? : Option Char
  deriving DecidableEq, Repr

inductive Assertion
  | textStart
  | textEnd
  /-- After a line break; with `carriage`, carriage returns break lines too. -/
  | lineStart (carriage : Bool)
  | lineEnd (carriage : Bool)
  /-- Between a character of the set and one outside it, or an end of the text. -/
  | boundary (word : CharSet)
  | notBoundary (word : CharSet)
  | wordStart (word : CharSet)
  | wordEnd (word : CharSet)
  | noWordBefore (word : CharSet)
  | noWordAfter (word : CharSet)
  deriving DecidableEq, Repr

def Assertion.holds (a : Assertion) (x : Place) : Bool :=
  match a with
  | textStart => x.before?.isNone
  | textEnd => x.after?.isNone
  | lineStart false => x.before?.isNone || x.before? = some '\n'
  | lineStart true =>
    x.before?.isNone || x.before? = some '\n' || (x.before? = some '\r' && x.after? ≠ some '\n')
  | lineEnd false => x.after?.isNone || x.after? = some '\n'
  | lineEnd true =>
    x.after?.isNone || x.after? = some '\r' || (x.after? = some '\n' && x.before? ≠ some '\r')
  | boundary w => x.before?.any w.contains != x.after?.any w.contains
  | notBoundary w => x.before?.any w.contains == x.after?.any w.contains
  | wordStart w => !x.before?.any w.contains && x.after?.any w.contains
  | wordEnd w => x.before?.any w.contains && !x.after?.any w.contains
  | noWordBefore w => !x.before?.any w.contains
  | noWordAfter w => !x.after?.any w.contains

/-! ## Patterns -/

inductive Pattern
  | empty
  | char (set : CharSet)
  | assertion (a : Assertion)
  | concat (first second : Pattern)
  | either (first second : Pattern)
  /-- At least `least` times, and at most `most` times if there is a limit. -/
  | repeated (p : Pattern) (least : Nat) (most : Option Nat)
  /-- In parentheses or brackets. Some parentheses capture what they match. -/
  | group (captures : Bool) (p : Pattern)
  deriving Repr

namespace Pattern

def concats : List Pattern → Pattern
  | [] => empty
  | [p] => p
  | p :: ps => concat p (concats ps)

/-! ## Nesting -/

/-- How deep the parts of a pattern are nested. A row counts as one level, and so do alternatives. -/
def levels : Pattern → Nat
  | empty | char _ | assertion _ => 0
  | concat p q =>
    max (p.levels + 1) (match q with
      | concat _ _ => q.levels
      | _ => q.levels + 1)
  | either p q =>
    max (p.levels + 1) (match q with
      | either _ _ => q.levels
      | _ => q.levels + 1)
  | repeated p _ _ | group _ p => p.levels + 1

def maxLevels : Nat := 250

end Pattern

end UriRouting
