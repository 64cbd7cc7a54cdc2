/-!
Limits on what a router compiles and how long it searches.
-/

namespace UriRouting

structure Config where
  maxMatchSteps : Nat := 10000
  maxTemplateAlternatives : Nat := 64
  maxSegments : Nat := 64
  deriving DecidableEq, Repr

end UriRouting
