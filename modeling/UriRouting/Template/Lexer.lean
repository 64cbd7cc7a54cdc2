import UriRouting.Template.Token
/-!
Reading a template's text into tokens.

Spaces are skipped without ending a token. A digit starts a number only where no text is pending, so
`v1` is text. Quotes start a quoted string only inside the parentheses that follow a variable;
elsewhere they are text, as is a colon that no name follows.

The lexer takes one character at a time. `Scan` holds what has been read: finished tokens, pending
text, and the lexeme in progress.
-/

namespace UriRouting

open Numeric Text

/-! ## Errors -/

inductive LexError
  | nameTooLong (name : String)
  /-- A quoted string does not end; `offset` is that of its opening quote in bytes. -/
  | unterminated (offset : Nat)
  deriving DecidableEq, Repr

def maxNameLength : Nat := 32

def LexError.message : LexError → String
  | nameTooLong name =>
    "variable name " ++ quoted name ++ " cannot be longer than " ++ toString maxNameLength
      ++ " characters"
  | unterminated offset => "unterminated quoted string at offset " ++ toString offset

/-! ## Characters -/

def isPunctuationChar (c : Char) : Bool := ['.', '(', ')', '[', ']', ',', '/'].contains c

def isNameStart (c : Char) : Bool := c.isAlpha || c = '_'

def isNameChar (c : Char) : Bool := c.isAlphanum || c = '_'

def isQuote (c : Char) : Bool := c = '"' || c = '\''

/-! ## State -/

/-- The lexeme in progress. Characters are kept newest first. -/
inductive Lexeme
  /-- None: between tokens, or in text. -/
  | none
  /-- A colon, which starts a variable if a name follows. -/
  | colon
  | name (chars : List Char)
  | digits (chars : List Char)
  /-- A number and a point, which belongs to the number if a digit follows. -/
  | point (chars : List Char)
  | fraction (chars : List Char)
  /-- A quoted string, opened by `quote` at byte `start`. -/
  | quoted (quote : Char) (start : Nat) (chars : List Char)
  | escaped (quote : Char) (start : Nat) (chars : List Char)
  deriving DecidableEq, Repr

/-- What has been read of a template. -/
structure Scan where
  offset : Nat := 0
  depth : Nat := 0
  /-- Finished tokens, newest first. -/
  tokens : List Token := []
  text : List Char := []
  lexeme : Lexeme := .none
  deriving DecidableEq, Repr

namespace Scan

def flush (s : Scan) : Scan :=
  if s.text = [] then s
  else { s with tokens := ⟨.text, String.ofList s.text.reverse⟩ :: s.tokens, text := [] }

/-- Adds a finished token, given its characters newest first, after the pending text. -/
def emit (s : Scan) (kind : TokenKind) (chars : List Char) : Scan :=
  let s := s.flush
  { s with tokens := ⟨kind, String.ofList chars.reverse⟩ :: s.tokens, lexeme := .none }

def followsVariable (s : Scan) : Bool :=
  s.text = [] && s.tokens.head?.any (·.kind = .var)

/-- The depth after a punctuation character. Only a parenthesis after a variable opens rules. -/
def depthAfter (s : Scan) (c : Char) : Nat :=
  if c = '(' && (0 < s.depth || s.followsVariable) then s.depth + 1
  else if c = ')' then s.depth - 1
  else s.depth

def emitPunctuation (s : Scan) (c : Char) : Scan :=
  { s.emit .punctuation [c] with depth := s.depthAfter c }

def begin (s : Scan) (c : Char) : Scan :=
  if c = ' ' then s
  else if isPunctuationChar c then s.emitPunctuation c
  else if c = ':' then { s with lexeme := .colon }
  else if isQuote c && 0 < s.depth then { s with lexeme := .quoted c s.offset [] }
  else if isDigit c && s.text = [] then { s with lexeme := .digits [c] }
  else { s with text := c :: s.text }

def settle (s : Scan) : Except LexError Scan :=
  match s.lexeme with
  | .none => .ok s
  | .colon => .ok { s with text := ':' :: s.text, lexeme := .none }
  | .name chars =>
    if maxNameLength < chars.length then .error (.nameTooLong (String.ofList chars.reverse))
    else .ok (s.emit .var chars)
  | .digits chars | .fraction chars => .ok (s.emit .number chars)
  | .point chars => .ok ((s.emit .number chars).emitPunctuation '.')
  | .quoted _ start _ | .escaped _ start _ => .error (.unterminated start)

/-- The lexeme in progress after one more character of it, absent if the character ends it. -/
def extend? (s : Scan) (c : Char) : Option Scan :=
  match s.lexeme with
  | .none => none
  | .colon => if isNameStart c then some { s with lexeme := .name [c] } else none
  | .name chars => if isNameChar c then some { s with lexeme := .name (c :: chars) } else none
  | .digits chars =>
    if isDigit c then some { s with lexeme := .digits (c :: chars) }
    else if c = '.' then some { s with lexeme := .point chars }
    else none
  | .point chars =>
    if isDigit c then some { s with lexeme := .fraction (c :: '.' :: chars) } else none
  | .fraction chars =>
    if isDigit c then some { s with lexeme := .fraction (c :: chars) } else none
  | .quoted quote start chars =>
    some <|
      if c = '\\' then { s with lexeme := .escaped quote start chars }
      else if c = quote then s.emit .quotedString chars
      else { s with lexeme := .quoted quote start (c :: chars) }
  | .escaped quote start chars => some { s with lexeme := .quoted quote start (c :: chars) }

def advance (s : Scan) (c : Char) : Scan := { s with offset := s.offset + c.utf8Size }

def read (s : Scan) (c : Char) : Except LexError Scan :=
  match s.extend? c with
  | some s => .ok (s.advance c)
  | none => s.settle.map fun s => (s.begin c).advance c

def finish (s : Scan) : Except LexError (List Token) :=
  s.settle.map fun s => s.flush.tokens.reverse

end Scan

/-! ## The lexer -/

def lex (template : String) : Except LexError (List Token) := do
  let s ← template.toList.foldlM Scan.read {}
  s.finish

end UriRouting
