import UriRouting.Numeric.Binary64.Reading
import UriRouting.Numeric.Binary64.Shortest
import UriRouting.Text.Quoted
/-!
Parameters of rules: integers, floating-point numbers and texts.
-/

namespace UriRouting

open Numeric Text

inductive Param
  | int (value : Int)
  | float (value : Binary64)
  | str (value : String)
  deriving DecidableEq, Repr

namespace Param

/-- A parameter as a floating-point number; a text counts when it reads as one. -/
def toBinary64? : Param → Option Binary64
  | int i => some (Binary64.ofInt i)
  | float x => some x
  | str s => Binary64.read? s

def str? : Param → Option String
  | str s => some s
  | _ => none

def text : Param → String
  | int i => toString i
  | float x => x.plainText
  | str s => s

def describe : Param → String
  | int i => "Int(" ++ toString i ++ ")"
  | float x => "Float(" ++ x.explicitText ++ ")"
  | str s => "Str(" ++ quoted s ++ ")"

/-- Whether two parameters are of one kind and equal; floating-point numbers compare as numbers. -/
def same : Param → Param → Bool
  | int a, int b => a = b
  | float a, float b => a.equal b
  | str a, str b => a = b
  | _, _ => false

end Param

end UriRouting
