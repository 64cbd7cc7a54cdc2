import UriRouting.Rule.Param
/-!
Tokens of route templates.

A number token keeps its spelling, so that `1.0` in a path is still written `1.0`; `number?` gives
its value.
-/

namespace UriRouting

open Numeric Text

inductive TokenKind
  | text
  | number
  | punctuation
  | quotedString
  | var
  | eof
  deriving DecidableEq, Repr

def TokenKind.name : TokenKind → String
  | text => "Text"
  | number => "Number"
  | punctuation => "Punctuation"
  | quotedString => "QuotedString"
  | var => "Variable"
  | eof => "Eof"

/-- A token: its kind and its text. -/
structure Token where
  kind : TokenKind
  value : String
  deriving DecidableEq, Repr

namespace Token

def eof : Token := ⟨.eof, ""⟩

def is (t : Token) (kind : TokenKind) (value? : Option String) : Bool :=
  t.kind = kind && value?.all (t.value = ·)

def isPunctuation (t : Token) (mark : String) : Bool := t.is .punctuation (some mark)

/-- The value of a number token: an integer when it has no fraction and fits, else a floating-point
number. -/
def number? (t : Token) : Option Param :=
  if t.kind ≠ .number then none
  else if t.value.toList.contains '.' then
    (Binary64.read? t.value).map fun x =>
      match x.toInt? with
      | some i => if i.natAbs < 0x8000000000000000 then .int i else .float x
      | none => .float x
  else match IntegerRange.signed64.read? t.value with
    | some i => some (.int i)
    | none => (Binary64.read? t.value).map .float

def describe (t : Token) : String :=
  if t.kind = .eof then "end of template" else t.kind.name ++ " " ++ quoted t.value

end Token

end UriRouting
