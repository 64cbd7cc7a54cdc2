import UriRouting.Rule.Param
/-!
What a template says: a path and perhaps a host, each a row of parts.

A part is a delimiter, a text, a variable or an optional row of parts. What stands for a variable is
left open: as written it is a `Slot`, and compiling puts its rules there.
-/

namespace UriRouting

inductive Side
  | host
  | path
  deriving DecidableEq, Repr

def Side.delimiter : Side → Char
  | host => '.'
  | path => '/'

/-- A rule as a template names it. The parameter list may be missing. -/
structure RuleCall where
  rule : String
  params? : Option (List Param)
  deriving Repr

/-- A variable as a template names it, with its rules. -/
structure Slot where
  name : String
  rules : List RuleCall
  deriving Repr

/-- A part of a host or path with variables of type `ν`. -/
inductive Part (ν : Type)
  | delimiter
  | text (value : String)
  | var (value : ν)
  | optional (parts : List (Part ν))

/-- What a template says. Every template has a path, though it may be empty. -/
structure Template where
  host? : Option (List (Part Slot))
  path : List (Part Slot)

namespace Part

theorem rows_induction {ν : Type} {motive : List (Part ν) → Prop} (nil : motive [])
    (delimiter : ∀ rest, motive rest → motive (.delimiter :: rest))
    (text : ∀ s rest, motive rest → motive (.text s :: rest))
    (var : ∀ v rest, motive rest → motive (.var v :: rest))
    (optional : ∀ inner rest, motive inner → motive rest → motive (.optional inner :: rest))
    (parts : List (Part ν)) : motive parts :=
  Part.rec_1
    (motive_1 := fun p => ∀ rest, motive rest → motive (p :: rest))
    (motive_2 := motive)
    delimiter text var (fun inner h rest => optional inner rest h) nil
    (fun _ rest hp => hp rest) parts

def isVar {ν : Type} : Part ν → Bool
  | var _ => true
  | _ => false

def isDelimiter {ν : Type} : Part ν → Bool
  | delimiter => true
  | _ => false

end Part

end UriRouting
