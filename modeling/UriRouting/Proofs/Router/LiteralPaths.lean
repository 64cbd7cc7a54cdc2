import UriRouting.Proofs.Router.SingleRows
import UriRouting.Proofs.Template.Literals
import UriRouting.Proofs.Trie.PlainRows
/-!
Paths without variables and optional parts match themselves and nothing else: `literal_matches_itself`.

Such a path has one row of keys, the pieces between its slashes that are not empty.
-/

namespace UriRouting

open Text

/-! ## Rows -/

/-- A literal path is a row of delimiters and texts. -/
theorem plainRow_literal {tokens : List Token} (h : ∀ t ∈ tokens, t.IsLiteral) :
    PlainRow '/' (tokens.map Token.literalPart) (tokenChars tokens) := by
  induction tokens with
  | nil => exact .nil
  | cons t tokens ih =>
    have ht := h t List.mem_cons_self
    have hrest := ih fun t' ht' => h t' (List.mem_cons_of_mem t ht')
    have hchars : tokenChars (t :: tokens) = t.value.toList ++ tokenChars tokens := List.flatMap_cons
    rw [List.map_cons, Token.literalPart, hchars]
    by_cases hslash : t = slashToken
    · rw [if_pos hslash, hslash]
      exact .delimiter hrest
    · rw [if_neg hslash]
      exact .text ht.nonempty (ht.whole hslash) hrest

/-! ## Routes -/

/-- The pieces of a text between slashes that are not empty, without spaces. -/
def literalPieces (text : String) : List String :=
  (fullPieces '/' (text.toList.filter (· ≠ ' '))).map String.ofList

theorem fullPieces_cons (sep : Char) (cs : List Char) : fullPieces sep (sep :: cs) = fullPieces sep cs := by
  rw [fullPieces, splitAt, if_pos rfl]
  rfl

theorem fullPieces_ofPath (cs : List Char) :
    fullPieces '/' (('/' :: cs.dropWhile UriTemplate.isSlash).filter (· ≠ ' '))
      = fullPieces '/' (cs.filter (· ≠ ' ')) := by
  rw [List.filter_cons_of_pos (by decide), fullPieces_cons]
  induction cs with
  | nil => rfl
  | cons c cs ih =>
    rw [List.dropWhile_cons]
    split
    · next hc =>
      obtain rfl : c = '/' := of_decide_eq_true hc
      rw [ih, List.filter_cons_of_pos (by decide), fullPieces_cons]
    · rfl

theorem IsLiteral.ofPath {cs : List Char} (h : IsLiteral cs) :
    IsLiteral ('/' :: cs.dropWhile UriTemplate.isSlash) := by
  have hdrop := h.of_infix (List.dropWhile_suffix UriTemplate.isSlash).isInfix
  refine ⟨?_, ?_⟩
  · exact List.not_mem_cons_of_ne_of_not_mem (by decide) hdrop.brackets
  · refine List.isChain_cons.mpr ⟨fun d _ hslash => ?_, hdrop.colons⟩
    cases hslash

/-- A literal text is read as a path with one row of keys, its pieces. -/
theorem exists_literal_row {text : String} (h : IsLiteral text.toList) :
    ∃ parts, Template.ofString (UriTemplate.ofPath text).path = .ok ⟨none, parts⟩ ∧ ∀ c : Compiler,
      (literalPieces text).length ≤ c.config.maxSegments →
        c.expand .path parts = .ok [(literalPieces text).map .literal] := by
  have hpath : (UriTemplate.ofPath text).path.toList = '/' :: text.toList.dropWhile UriTemplate.isSlash :=
    String.toList_ofList
  obtain ⟨tokens, hreads, htokens, hchars⟩ := ofString_literal (hpath ▸ h.ofPath) hpath
  refine ⟨_, hreads, fun c hsegments => ?_⟩
  have hpieces : fullPieces '/' (tokenChars tokens) = fullPieces '/' (text.toList.filter (· ≠ ' ')) := by
    rw [hchars, hpath, fullPieces_ofPath]
  have hrow : (fullPieces '/' (tokenChars tokens)).map Side.path.pieceKey = (literalPieces text).map .literal := by
    rw [hpieces, literalPieces, List.map_map]
    rfl
  rw [literalPieces, List.length_map, ← hpieces] at hsegments
  rw [(plainRow_literal htokens).expand, if_neg (Nat.not_lt.mpr hsegments), hrow]

/-- A literal path that is not too long registers as one alternative. For every host, and with steps for its
pieces, a search for its method finds it exactly if the segments of the path are these pieces, and captures
nothing. -/
theorem literal_matches_itself {α : Type} (factory : RuleFactory) (config : Config) (methods : List Method)
    (text : String) (action : α) (h : IsLiteral text.toList)
    (hsegments : (literalPieces text).length ≤ config.maxSegments) :
    ∃ (r : Router α) (e : Entry α), Router.tryInsert methods text action (.empty factory config) = .ok 1 r ∧
      r.entries = [e] ∧ e.route = .new methods (.ofPath text) action ∧
      ((literalPieces text).length ≤ config.maxMatchSteps → ∀ req : Request,
        (methods = [] ∨ req.method ∈ methods) →
          (r.find req).exhausted = false ∧
          (r.find req).result
            = if segmentsOfPath req.path = literalPieces text then .found e [] else .notFound) := by
  obtain ⟨parts, hreads, hrows⟩ := exists_literal_row h
  obtain ⟨r, e, hinsert, hentries, hroute, -, hfind⟩ :=
    Router.tryInsert_single methods action hreads (hrows ⟨factory, config, fun _ => []⟩ hsegments)
  refine ⟨r, e, hinsert, hentries, hroute, fun hsteps req hmethod => ?_⟩
  have hlength : ((literalPieces text).map Key.literal).length ≤ config.maxMatchSteps := by
    rwa [List.length_map]
  obtain ⟨hexhausted, hresult⟩ := hfind hlength req hmethod
  rw [captureRow?_literals] at hresult
  refine ⟨hexhausted, hresult.trans ?_⟩
  by_cases hpieces : segmentsOfPath req.path = literalPieces text
  · rw [if_pos hpieces, if_pos hpieces]
  · rw [if_neg hpieces, if_neg hpieces]

/-- Numbers, a quote, parentheses and a colon without a name are texts, and spaces are dropped. -/
theorem literal_matches_itself_draft : ∃ (r : Router String) (e : Entry String),
    Router.tryInsert [.get] "//v1.0/it's: a (draft]/" "draft" (.empty .default {}) = .ok 1 r ∧
    (r.find ⟨.get, "example.com", "/v1.0/it's:a(draft]", .empty⟩).result = .found e [] ∧
    (r.find ⟨.get, "example.com", "/v1.0//it's:a(draft]", .empty⟩).result = .notFound := by
  obtain ⟨r, e, hinsert, -, -, hfind⟩ := literal_matches_itself .default {} [.get] "//v1.0/it's: a (draft]/" "draft"
    ⟨by decide, by decide⟩ (by decide)
  have hfind := hfind (by decide)
  refine ⟨r, e, hinsert, ?_, ?_⟩
  · exact (hfind _ (Or.inr List.mem_cons_self)).2.trans (if_pos (by decide))
  · exact (hfind _ (Or.inr List.mem_cons_self)).2.trans (if_neg (by decide))

end UriRouting
