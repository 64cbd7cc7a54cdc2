import UriRouting.Text.Split
/-!
The host and path templates of a route, as text.
-/

namespace UriRouting

open Text

structure UriTemplate where
  /-- Starts with a slash. -/
  path : String
  /-- Neither starts nor ends with a slash or a period. -/
  host? : Option String := none
  httpsOnly : Bool := false
  deriving DecidableEq, Repr

namespace UriTemplate

def isSlash (c : Char) : Bool := c = '/'

def isSeparator (c : Char) : Bool := c = '/' || c = '.'

def ofPath (path : String) : UriTemplate :=
  ⟨String.ofList ('/' :: path.toList.dropWhile isSlash), none, false⟩

/-- Sets the host, without the separators at its ends. Nothing but separators is no host. -/
def withHost (t : UriTemplate) (host : String) : UriTemplate :=
  let trimmed := trimBoth isSeparator host.toList
  { t with host? := if trimmed = [] then none else some (String.ofList trimmed) }

def source (t : UriTemplate) : String := t.host?.getD "" ++ t.path

def prefixPath (t : UriTemplate) (segments : String) : UriTemplate :=
  let trimmed := trimBoth isSlash segments.toList
  if trimmed = [] then t else { t with path := "/" ++ String.ofList trimmed ++ t.path }

/-- A host followed by the labels of a suffix. An optional part at its end brings its own period. -/
def joinHost (host? : Option String) (suffix : String) : String :=
  match host? with
  | none => suffix
  | some host => if host.endsWith ".]" then host ++ suffix else host ++ "." ++ suffix

def appendHost (t : UriTemplate) (labels : String) : UriTemplate :=
  t.withHost (joinHost t.host? (String.ofList (labels.toList.dropWhile (· = '.'))))

end UriTemplate

end UriRouting
