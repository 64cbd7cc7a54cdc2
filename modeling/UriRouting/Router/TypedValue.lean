import UriRouting.Numeric.Integer
import UriRouting.Router.Search
/-!
Captured values read as integers, truth values and characters.

What is read is written back by `TypedValue.text`, and what cannot be read has a fault that tells
why.
-/

namespace UriRouting

open Numeric

inductive ValueType
  | integer (range : IntegerRange)
  | truth
  | character

inductive TypedValue
  | integer (n : Int)
  | truth (b : Bool)
  | character (c : Char)
  deriving DecidableEq, Repr

inductive ValueFault
  | integer (fault : IntegerFault)
  | notTruth
  | noCharacter
  | severalCharacters
  deriving DecidableEq, Repr

def ValueFault.message : ValueFault → String
  | integer fault => fault.message
  | notTruth => "provided string was not \x60true\x60 or \x60false\x60"
  | noCharacter => "cannot parse char from empty string"
  | severalCharacters => "too many characters in string"

def TypedValue.text : TypedValue → String
  | integer n => toString n
  | truth b => if b then "true" else "false"
  | character c => String.singleton c

namespace ValueType

def readTruth (text : String) : Except ValueFault TypedValue :=
  if text = "true" then .ok (.truth true)
  else if text = "false" then .ok (.truth false)
  else .error .notTruth

def readCharacter (text : String) : Except ValueFault TypedValue :=
  match text.toList with
  | [] => .error .noCharacter
  | [c] => .ok (.character c)
  | _ => .error .severalCharacters

def read (t : ValueType) (text : String) : Except ValueFault TypedValue :=
  match t with
  | integer range => ((range.read text).map TypedValue.integer).mapError ValueFault.integer
  | truth => readTruth text
  | character => readCharacter text

end ValueType

def MatchResult.read? {α : Type} (r : MatchResult α) (name : String) (t : ValueType) :
    Option (Except ValueFault TypedValue) :=
  (r.value? name).map t.read

end UriRouting
