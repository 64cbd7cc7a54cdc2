import UriRouting.Template.Token
/-!
Tokens with a cursor. The last token of a stream is an end token, and the cursor stays on it.
-/

namespace UriRouting

/-! ## Errors -/

inductive Expectation
  | optionalPathStart
  | optionalPathEnd
  | optionalHostDelimiter
  | optionalHostEnd
  | noStrayHostBracket
  | delimiterBetweenVariables
  | ruleName
  | rulesEnd
  | parameter
  | parametersEnd
  | stated (message : String)
  deriving DecidableEq, Repr

def Expectation.message : Expectation → String
  | optionalPathStart => "expected optional path part to start with '/'"
  | optionalPathEnd => "expected optional path part to end with ']'"
  | optionalHostDelimiter => "expected optional host part to end with '.'"
  | optionalHostEnd => "expected optional host part to end with ']'"
  | noStrayHostBracket => "unexpected ']' outside of an optional host part"
  | delimiterBetweenVariables => "cannot have consecutive variables without a delimiter"
  | ruleName => "expected variable constraint name"
  | rulesEnd => "expected ')' after variable constraints"
  | parameter => "expected constraint parameter"
  | parametersEnd => "expected ')' after constraint parameters"
  | stated message => message

structure UnexpectedToken where
  expected : Expectation
  found : Token
  deriving DecidableEq, Repr

def UnexpectedToken.message (e : UnexpectedToken) : String :=
  e.expected.message ++ ", found " ++ e.found.describe

/-! ## Streams -/

/-- Tokens around a cursor. -/
structure TokenStream where
  before : List Token
  current : Token
  after : List Token
  deriving DecidableEq, Repr

namespace TokenStream

/-- Tokens with an end token, which is added where it is missing. -/
def closed (tokens : List Token) : List Token :=
  match tokens.getLast? with
  | some last => if last.kind = .eof then tokens else tokens ++ [.eof]
  | none => [.eof]

def ofTokens (tokens : List Token) : TokenStream :=
  match closed tokens with
  | [] => ⟨[], .eof, []⟩
  | t :: ts => ⟨[], t, ts⟩

def toList (s : TokenStream) : List Token := s.before.reverse ++ s.current :: s.after

def remaining (s : TokenStream) : List Token := s.current :: s.after

def peek (s : TokenStream) : Token := s.after.headD s.current

/-- Moves the cursor on, unless it is on the last token. -/
def advance (s : TokenStream) : TokenStream :=
  match s.after with
  | [] => s
  | t :: ts => ⟨s.current :: s.before, t, ts⟩

def atEnd (s : TokenStream) : Bool := s.current.kind = .eof

def test (s : TokenStream) (kind : TokenKind) (value? : Option String) : Bool :=
  s.current.is kind value?

def expect (s : TokenStream) (kind : TokenKind) (value? : Option String) (what : Expectation) :
    Except UnexpectedToken Token :=
  if s.test kind value? then .ok s.current else .error ⟨what, s.current⟩

/-- Moves past the current token if it is the expected one, and tells whether it was. -/
def nextIf (s : TokenStream) (kind : TokenKind) (value? : Option String) : Bool × TokenStream :=
  if s.test kind value? then (true, s.advance) else (false, s)

end TokenStream

end UriRouting
