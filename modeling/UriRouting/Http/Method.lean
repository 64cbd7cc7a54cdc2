import UriRouting.StringTable
/-!
Methods and headers of requests.
-/

namespace UriRouting

def isTokenChar (c : Char) : Bool := c.isAlphanum || "!#$%&'*+-.^_\x60|~".toList.contains c

def isTokenText (s : String) : Bool := s ≠ "" && s.toList.all isTokenChar

/-! ## Methods -/

/-- A request method. Its case matters. -/
structure Method where
  name : String
  valid : isTokenText name = true
  deriving DecidableEq

namespace Method

def ofString? (name : String) : Option Method := if h : isTokenText name = true then some ⟨name, h⟩ else none

def get : Method := ⟨"GET", by decide⟩
def post : Method := ⟨"POST", by decide⟩
def put : Method := ⟨"PUT", by decide⟩
def patch : Method := ⟨"PATCH", by decide⟩
def delete : Method := ⟨"DELETE", by decide⟩
def head : Method := ⟨"HEAD", by decide⟩
def options : Method := ⟨"OPTIONS", by decide⟩

def addNew (methods : List Method) (m : Method) : List Method :=
  if m ∈ methods then methods else methods ++ [m]

/-- A list followed by the methods of another that it does not hold, each once. -/
def union (methods more : List Method) : List Method := more.foldl addNew methods

end Method

/-! ## Headers -/

structure Headers where
  fields : StringTable String

namespace Headers

def empty : Headers := ⟨.empty⟩

def normalizeName (name : String) : String := String.ofList (name.toList.map Char.toLower)

/-- Whether a text can be the value of a header: it holds no control but the tab. -/
def isValue (value : String) : Bool :=
  value.toList.all fun c => c = '\t' || (0x20 ≤ c.toNat && c.toNat ≠ 0x7F)

def insert? (h : Headers) (name value : String) : Option Headers :=
  if isTokenText name && isValue value then some ⟨h.fields.insert (normalizeName name) value⟩ else none

def get? (h : Headers) (name : String) : Option String := h.fields.find? (normalizeName name)

end Headers

end UriRouting
