import UriRouting.Proofs.Router.Groups
import UriRouting.Proofs.Router.Requests
import UriRouting.Proofs.Router.SingleRows
import UriRouting.Proofs.Template.Literals
import UriRouting.Proofs.Trie.PlainRows
/-!
Hosts without variables and optional parts.

Such a host has one row of keys, its labels in lower case. A request for it comes by this row unless what it has
behind a colon is taken for a port: `Router.literal_host_matches`.
-/

namespace UriRouting

open Text

/-! ## Rows -/

theorem PlainRow.single {s : String} (present : s ≠ "") (plain : '.' ∉ s.toList) :
    PlainRow '.' [.text s] s.toList := by
  have hrow := PlainRow.text present plain .nil
  rwa [List.append_nil] at hrow

/-- What a literal token is in front of a row of a host, whose periods separate labels also in numbers. -/
theorem Token.IsLiteral.exists_row {t : Token} (h : t.IsLiteral) {n : Nesting} (hspelled : t.Spelled n)
    (hclosing : ']' ∉ t.value.toList) : ∃ parts, PlainRow '.' parts t.value.toList ∧
      ∀ {behindVar more tokens}, SpellsRow .host false false more tokens →
        SpellsRow .host false behindVar (parts ++ more) (t :: tokens) := by
  have hkind := h.kind
  cases hspelled with
  | @text cs hne hplain =>
    have hpresent : String.ofList cs ≠ "" := by simpa using hne
    have hperiod : '.' ∉ (String.ofList cs).toList := fun hmem => by
      rw [String.toList_ofList] at hmem
      cases hplain '.' hmem
    have hrole : (⟨.text, String.ofList cs⟩ : Token).role .host false = .text := rfl
    exact ⟨[.text (String.ofList cs)], .single hpresent hperiod, fun rest => .text hrole rest⟩
  | @digits cs hdigits =>
    have hpresent : String.ofList cs ≠ "" := by simpa using hdigits.1
    have hperiod : '.' ∉ cs := hdigits.not_mem rfl
    refine ⟨[.text (String.ofList cs)], .single hpresent (by simpa using hperiod), fun rest => .labels rfl ?_ rest⟩
    rw [String.toList_ofList]
    exact .last hperiod
  | @fraction whole cs hwhole hdigits =>
    have hparts : ∀ {cs : List Char}, IsDigits cs → String.ofList cs ≠ "" ∧ '.' ∉ (String.ofList cs).toList := by
      intro cs hcs
      rw [String.toList_ofList]
      exact ⟨by simpa using hcs.1, hcs.not_mem rfl⟩
    refine ⟨[.text (String.ofList whole), .delimiter, .text (String.ofList cs)], ?_, fun rest => .labels rfl ?_ rest⟩
    · have hrow := PlainRow.text (hparts hwhole).1 (hparts hwhole).2
        (.delimiter (.single (hparts hdigits).1 (hparts hdigits).2))
      simpa using hrow
    · rw [String.toList_ofList]
      exact .more (hwhole.not_mem rfl) (.last (hdigits.not_mem rfl))
  | @punctuation c mark =>
    have hopening : String.ofList [c] ≠ "[" := by
      rcases hkind with hkind | hkind | ⟨-, hvalue⟩
      · cases hkind
      · cases hkind
      · exact hvalue
    have hclosing : String.ofList [c] ≠ "]" := by
      intro hvalue
      rw [hvalue] at hclosing
      exact hclosing (List.mem_singleton_self _)
    by_cases hperiod : c = '.'
    · subst hperiod
      exact ⟨[.delimiter], .delimiter .nil, fun rest => .delimiter rfl rest⟩
    · have hplain : '.' ∉ (String.ofList [c]).toList := by simpa using Ne.symm hperiod
      have hvalue : String.ofList [c] ≠ "." := fun h => hplain (by rw [h]; exact List.mem_singleton_self _)
      have hrole : (⟨.punctuation, String.ofList [c]⟩ : Token).role .host false = .text :=
        (if_neg hvalue).trans ((if_neg hopening).trans (if_neg fun h => hclosing h.1))
      exact ⟨[.text (String.ofList [c])], .single (by simp) hplain, fun rest => .text hrole rest⟩
  | quotedString value => exact absurd rfl h.kind_ne_quoted
  | var name => exact absurd rfl h.kind_ne_var

/-- Literal tokens spell one host, a row of delimiters and texts. -/
theorem exists_plain_host {tokens : List Token} (hliteral : ∀ t ∈ tokens, t.IsLiteral)
    (hspelled : ∀ t ∈ tokens, ∃ n, t.Spelled n) (hclosing : ']' ∉ tokenChars tokens) {behindVar : Bool} :
    ∃ parts, SpellsRow .host false behindVar parts tokens ∧ PlainRow '.' parts (tokenChars tokens) := by
  induction tokens generalizing behindVar with
  | nil => exact ⟨[], .nil, .nil⟩
  | cons t tokens ih =>
    have hchars : tokenChars (t :: tokens) = t.value.toList ++ tokenChars tokens := List.flatMap_cons
    rw [hchars, List.mem_append, not_or] at hclosing
    obtain ⟨hhead, htail⟩ := List.forall_mem_cons.mp hliteral
    obtain ⟨⟨n, hspelledHead⟩, hspelledTail⟩ := List.forall_mem_cons.mp hspelled
    obtain ⟨parts, hrow, hspells⟩ := hhead.exists_row hspelledHead hclosing.1
    obtain ⟨more, hmore, hmoreRow⟩ := ih htail hspelledTail hclosing.2
    rw [hchars]
    exact ⟨parts ++ more, hspells hmore, hrow.append hmoreRow⟩

/-! ## Hosts -/

/-- A host without spaces, slashes, brackets and variables, whose labels are not empty. -/
structure LiteralHost (host : String) : Prop where
  literal : IsLiteral host.toList
  closing : ']' ∉ host.toList
  space : ' ' ∉ host.toList
  slash : '/' ∉ host.toList
  labels : "" ∉ piecesOf '.' host.toList

namespace LiteralHost

variable {host : String}

theorem isLiteral_slash (h : LiteralHost host) : IsLiteral (host ++ "/").toList := by
  rw [String.toList_append]
  refine ⟨?_, List.isChain_append.mpr ⟨h.literal.colons, List.isChain_singleton _, fun c _ d hd _ => ?_⟩⟩
  · rw [List.mem_append, not_or]
    exact ⟨h.literal.brackets, by decide⟩
  · obtain rfl : '/' = d := Option.some.inj hd
    rfl

/-- In front of a slash, the host has the tokens that it has on its own. -/
theorem lex_slash (h : LiteralHost host) : ∃ tokens, lex (host ++ "/") = .ok (tokens ++ [slashToken]) ∧
    (∀ t ∈ tokens, t.IsLiteral) ∧ (∀ t ∈ tokens, ∃ n, t.Spelled n) ∧ tokenChars tokens = host.toList := by
  obtain ⟨tokens, hlex, hliteral, hchars⟩ := lex_literal h.literal
  obtain ⟨all, hall, -, -⟩ := lex_literal h.isLiteral_slash
  obtain ⟨s, s', hrun, hsettle, htokens⟩ := lex_ok_iff.mp hlex
  have hdepth : s'.depth = 0 := by
    rw [depth_of_scan hrun hsettle, ← htokens]
    exact (nest_literal rfl rfl hliteral).1
  have hslash : lex "/" = .ok [slashToken] := by rfl
  have hpath : "/".toList = '/' :: [] := rfl
  obtain ⟨later, hlater, rfl⟩ := lex_path hrun hsettle hdepth hpath String.toList_append hall
  cases hslash.symm.trans hlater
  refine ⟨tokens, htokens ▸ hall, hliteral, fun t ht => (lex_spelled hlex).exists_of_mem ht, ?_⟩
  rw [hchars]
  exact List.filter_eq_self.mpr fun c hc => decide_eq_true fun hspace => h.space (hspace ▸ hc)

theorem ofString_slash (h : LiteralHost host) (hne : host ≠ "") : ∃ parts,
    Template.ofString (host ++ "/") = .ok ⟨some parts, [.delimiter]⟩ ∧ PlainRow '.' parts host.toList := by
  obtain ⟨tokens, hlex, hliteral, hspelled, hchars⟩ := h.lex_slash
  obtain ⟨parts, hspells, hrow⟩ := exists_plain_host hliteral hspelled (hchars ▸ h.closing)
  rw [hchars] at hrow
  have hmark : ∀ t ∈ tokens, ∀ mark : Char, mark ∉ host.toList → t.isPunctuation (String.singleton mark) = false := by
    intro t ht mark hmark
    rw [Token.isPunctuation, Token.is, Bool.and_eq_false_iff]
    refine Or.inr (decide_eq_false fun hvalue => hmark ?_)
    rw [← hchars]
    exact List.mem_flatMap.mpr ⟨t, ht, by simp [hvalue]⟩
  have hcut : CutAtSlash (tokens ++ [slashToken]) tokens [slashToken] :=
    ⟨rfl, fun t ht => hmark t ht '/' h.slash, rfl⟩
  have hmore : ∃ t ∈ tokens, t.isBracket = false := by
    cases tokens with
    | nil =>
      have hempty : host.toList = [] := hchars.symm
      exact absurd (String.toList_eq_nil_iff.mp hempty) hne
    | cons t tokens =>
      have hopening : t.isPunctuation "[" = false := hmark t List.mem_cons_self '[' h.literal.brackets
      have hclosing : t.isPunctuation "]" = false := hmark t List.mem_cons_self ']' h.closing
      exact ⟨t, List.mem_cons_self, by rw [Token.isBracket, hopening, hclosing]; rfl⟩
  have hpath : SpellsRow .path false false [.delimiter] [slashToken] := .delimiter rfl .nil
  exact ⟨parts, ofString_ok_iff.mpr ⟨_, hlex, .host hcut hmore hspells hpath⟩, hrow⟩

/-! ## Labels -/

/-- No period is trimmed from a host whose labels are not empty. -/
theorem trimEnd_eq (h : LiteralHost host) {p : Char → Bool} (hp : ∀ c ∈ host.toList, p c = true → c = '.') :
    trimEnd p host.toList = host.toList := by
  rcases List.eq_nil_or_concat' host.toList with hnil | ⟨front, c, hconcat⟩
  · rw [hnil]
    rfl
  · have hlast : ¬ p c = true := by
      intro hc
      obtain rfl := hp c (by simp [hconcat]) hc
      have hne : host.toList ≠ [] := by simp [hconcat]
      refine h.labels ?_
      rw [piecesOf, if_neg hne, hconcat, splitAt_append_cons, List.map_append]
      exact List.mem_append_right _ List.mem_cons_self
    rw [hconcat]
    exact List.rdropWhile_concat_neg _ _ _ hlast

theorem trimmedHost_eq (h : LiteralHost host) : UriTemplate.trimmedHost host = host.toList := by
  have hperiod : ∀ c ∈ host.toList, UriTemplate.isSeparator c = true → c = '.' := by
    intro c hc hseparator
    rcases (Bool.or_eq_true _ _).mp hseparator with hslash | hperiod
    · exact absurd (of_decide_eq_true hslash ▸ hc) h.slash
    · exact of_decide_eq_true hperiod
  have hdrop : host.toList.dropWhile UriTemplate.isSeparator = host.toList := by
    cases hhost : host.toList with
    | nil => rfl
    | cons c cs =>
      refine List.dropWhile_cons_of_neg fun hc => h.labels ?_
      obtain rfl := hperiod c (by simp [hhost]) hc
      rw [hhost, piecesOf, if_neg (List.cons_ne_nil _ _), splitAt, if_pos rfl]
      exact List.mem_cons_self
  rw [UriTemplate.trimmedHost, trimBoth, hdrop, h.trimEnd_eq hperiod]

/-- The labels of a host from the last one on, their ASCII letters in lower case. -/
def loweredLabels (host : String) : List String := ((piecesOf '.' host.toList).map lowercaseAscii).reverse

theorem labelsOf_eq (h : LiteralHost host) (hcolon : ':' ∉ host.toList) : labelsOf host = loweredLabels host := by
  have hlower : ∀ c : Char, c.toLower = '.' ↔ c = '.' := fun c => toLower_eq_low (by decide)
  have hnormal : (normalizeHost host).toList = host.toList.map Char.toLower := by
    rw [normalizeHost_eq h.literal.brackets hcolon, h.trimEnd_eq fun c _ => of_decide_eq_true]
  rw [labelsOf, hnormal, loweredLabels, piecesOf, piecesOf]
  by_cases hnil : host.toList = []
  · rw [if_pos hnil, if_pos (by rw [hnil]; rfl)]
    rfl
  · rw [if_neg hnil, if_neg (by simpa using hnil), splitAt_map hlower, List.map_map, List.map_map]
    congr 2
    funext label
    rw [Function.comp_apply, Function.comp_apply, lowercaseAscii, String.toList_ofList]

end LiteralHost

/-- What is behind a colon is no label of a host, unless it begins with a bracket. -/
theorem colon_not_mem_labelsOf {host : String} (hbracket : host.toList.head? ≠ some '[') :
    ∀ label ∈ labelsOf host, ':' ∉ label.toList := by
  intro label hlabel hcolon
  have hnormal : ':' ∈ (normalizeHost host).toList := by
    rw [labelsOf, List.mem_reverse, piecesOf] at hlabel
    split at hlabel
    · cases hlabel
    · obtain ⟨piece, hpiece, rfl⟩ := List.mem_map.mp hlabel
      rw [String.toList_ofList] at hcolon
      exact mem_of_mem_splitAt hpiece hcolon
  rw [normalizeHost, String.toList_ofList, withoutPort_of_head hbracket] at hnormal
  obtain ⟨c, hc, hlower⟩ := List.mem_map.mp hnormal
  obtain rfl := (toLower_eq_low (by decide)).mp hlower
  have hne := List.mem_takeWhile_imp ((trimEnd_isPrefix _ _).subset hc)
  simp at hne

/-! ## Routes -/

namespace LiteralHost

/-- The rows of keys of the host and an empty path. -/
def rows (host : String) : SingleRows :=
  ⟨[], if host = "" then none
    else some (((piecesOf '.' host.toList).map fun label => .literal (lowercase label)).reverse)⟩

theorem accepted_keys {host : String} (h : LiteralHost host) {α : Type} {r : Router α} {route : Route α}
    {template : Template} {keys : CompiledTemplate} (haccepts : r.Accepts (route.placedAt host "/") template keys) :
    keys = (rows host).keys := by
  have hsource : (route.placedAt host "/").template.source = host ++ "/" := by
    rw [← String.toList_inj, Route.placedAt, UriTemplate.source_withHost, h.trimmedHost_eq, String.toList_append]
    rfl
  have hreads := haccepts.reads
  have hcompiles := haccepts.compiles
  rw [hsource] at hreads
  have hpath : ∀ c : Compiler, c.expand .path [.delimiter] = .ok [[]] := fun c => c.expand_nil .path
  by_cases hempty : host = ""
  · subst hempty
    have hroot : Template.ofString ("" ++ "/") = .ok ⟨none, [.delimiter]⟩ := by rfl
    cases hroot.symm.trans hreads
    rw [Compiler.compile, hpath] at hcompiles
    exact (Except.ok.inj hcompiles).symm
  · obtain ⟨parts, hparts, hrow⟩ := h.ofString_slash hempty
    cases hparts.symm.trans hreads
    have hpieces : (fullPieces '.' host.toList).map Side.host.pieceKey
        = (piecesOf '.' host.toList).map fun label => .literal (lowercase label) := by
      rw [piecesOf_eq h.labels, List.map_map]
      rfl
    rw [Compiler.compile, hpath] at hcompiles
    simp only [hrow.expand, hpieces] at hcompiles
    split at hcompiles
    · cases hcompiles
    · rw [rows, if_neg hempty]
      exact (Except.ok.inj hcompiles).symm

/-- A request for the host has the labels of the host, unless there is a colon in it. -/
theorem labelsOf_requested_iff {host : String} (h : LiteralHost host) {requested periods : String}
    (hperiods : ∀ c ∈ periods.toList, c = '.')
    (hrequested : lowercaseAscii requested = lowercaseAscii (host ++ periods)) :
    labelsOf requested = loweredLabels host ↔ ':' ∉ host.toList := by
  rw [labelsOf_congr (normalizeHost_congr hrequested)]
  constructor
  · intro hsame hcolon
    obtain ⟨piece, hpiece, hmem⟩ := exists_mem_splitAt hcolon (by decide : ':' ≠ '.')
    have hbracket : (host ++ periods).toList.head? ≠ some '[' := by
      intro hhead
      rw [String.toList_append] at hhead
      rcases List.mem_append.mp (List.mem_of_mem_head? hhead) with hhost | hperiod
      · exact h.literal.brackets hhost
      · cases hperiods _ hperiod
    have hlabel : lowercaseAscii (String.ofList piece) ∈ labelsOf (host ++ periods) := by
      rw [hsame, loweredLabels, List.mem_reverse, piecesOf, if_neg (List.ne_nil_of_mem hcolon)]
      exact List.mem_map_of_mem (List.mem_map_of_mem hpiece)
    refine colon_not_mem_labelsOf hbracket _ hlabel ?_
    rw [lowercaseAscii, String.toList_ofList, String.toList_ofList]
    exact List.mem_map.mpr ⟨':', hmem, rfl⟩
  · intro hcolon
    have hbare : BareHost host.toList :=
      .name hcolon fun hhead => h.literal.brackets (List.mem_of_mem_head? hhead)
    have hsuffix := normalizeHost_suffix hbare hperiods (Or.inl rfl)
    rw [String.append_empty] at hsuffix
    rw [labelsOf_congr hsuffix, h.labelsOf_eq hcolon]

/-- A host whose letters have no lowercase forms but those of ASCII letters has its labels for keys. -/
theorem rows_of_letters {host : String} (hletters : lowercase host = lowercaseAscii host) :
    rows host = ⟨[], if host = "" then none else some ((loweredLabels host).map .literal)⟩ := by
  have hkeys : (piecesOf '.' host.toList).map (fun label => Key.literal (lowercase label))
      = ((piecesOf '.' host.toList).map lowercaseAscii).map .literal := by
    rw [List.map_map]
    refine List.map_congr_left fun label hlabel => congrArg Key.literal ?_
    rw [piecesOf] at hlabel
    split at hlabel
    · cases hlabel
    · obtain ⟨piece, hpiece, rfl⟩ := List.mem_map.mp hlabel
      refine lowercase_eq_ascii_iff.mpr fun c hc => lowercase_eq_ascii_iff.mp hletters c ?_
      rw [String.toList_ofList] at hc
      exact mem_of_mem_splitAt hpiece hc
  rw [rows, hkeys, loweredLabels, List.map_reverse]

theorem captureRows?_rows {host : String} (h : LiteralHost host) (hletters : lowercase host = lowercaseAscii host)
    {requested periods path : String} (hperiods : ∀ c ∈ periods.toList, c = '.')
    (hrequested : lowercaseAscii requested = lowercaseAscii (host ++ periods)) (hpath : segmentsOfPath path = []) :
    (rows host).captureRows? requested path = if ':' ∈ host.toList then none else some [] := by
  have hiff := h.labelsOf_requested_iff hperiods hrequested
  rw [rows_of_letters hletters, SingleRows.captureRows?, hpath]
  by_cases hempty : host = ""
  · subst hempty
    rfl
  · rw [if_neg hempty, Option.elim_some, captureRow?_literals]
    by_cases hcolon : ':' ∈ host.toList
    · rw [if_neg fun hsame => hiff.mp hsame hcolon, if_pos hcolon]
      rfl
    · rw [if_pos (hiff.mpr hcolon), if_neg hcolon]
      rfl

end LiteralHost

namespace Router

variable {α : Type} {factory : RuleFactory} {config : Config}

/-- A route for a literal host is alone in a router, and a search has steps for its labels. Whatever the case of
ASCII letters and the periods at the end of a request for the host, the search finds the route, but for a host
that has a colon, as the host of a request ends there. -/
theorem literal_host_matches (route : Route α) {host : String} (h : LiteralHost host)
    (hletters : lowercase host = lowercaseAscii host) (hconstraints : route.constraints = []) {n : Nat}
    {r : Router α} (hregister : register (route.placedAt host "/") (empty factory config) = .ok n r)
    (hsteps : (piecesOf '.' host.toList).length ≤ config.maxMatchSteps) :
    ∃ e, r.entries = [e] ∧ e.route = route.placedAt host "/" ∧ ∀ (req : Request) (periods : String),
      (∀ c ∈ periods.toList, c = '.') → lowercaseAscii req.host = lowercaseAscii (host ++ periods) →
      segmentsOfPath req.path = [] → route.allows req.method = true →
        (r.find req).exhausted = false ∧
        (r.find req).result = if ':' ∈ host.toList then .notFound else .found e [] := by
  obtain ⟨e, herror⟩ | ⟨template, keys, haccepts, -⟩ :=
    register_cases (route.placedAt host "/") (empty factory config : Router α)
  · rw [herror] at hregister
    cases hregister
  · obtain rfl := h.accepted_keys haccepts
    cases haccepts.register_single.symm.trans hregister
    have hlength : (LiteralHost.rows host).length ≤ config.maxMatchSteps := by
      refine Nat.le_trans ?_ hsteps
      rw [LiteralHost.rows, SingleRows.length]
      split <;> simp
    refine ⟨_, rfl, rfl, fun req periods hperiods hhost hpath hmethod => ⟨find_single_steps hlength req, ?_⟩⟩
    rw [haccepts.find_single hconstraints hlength hmethod,
      h.captureRows?_rows hletters hperiods hhost hpath]
    by_cases hcolon : ':' ∈ host.toList
    · rw [if_pos hcolon, if_pos hcolon]
    · rw [if_neg hcolon, if_neg hcolon]

/-- A route for a host and no path. -/
def hostRoute (host : String) : Route String := (Route.new [.get] (.ofPath "/") "page").placedAt host "/"

/-- Numbers, which the lexer reads across periods, and letters in both cases. -/
theorem literal_host_matches_letters : LiteralHost "1.2.3.v4.Example.org" ∧ ∃ r e,
    register (hostRoute "1.2.3.v4.Example.org") (empty .default {}) = .ok 1 r ∧ r.entries = [e] ∧
    (r.find ⟨.get, "1.2.3.V4.EXAMPLE.org..", "/", .empty⟩).result = .found e [] := by
  have hliteral : LiteralHost "1.2.3.v4.Example.org" :=
    ⟨⟨by decide, by decide⟩, by decide, by decide, by decide, by decide⟩
  have hletters : lowercase "1.2.3.v4.Example.org" = lowercaseAscii "1.2.3.v4.Example.org" := by decide +kernel
  have hattached : attached? (register (hostRoute "1.2.3.v4.Example.org") (empty .default {})) = some 1 := by
    decide +kernel
  obtain ⟨r, hregister⟩ := exists_of_attached? hattached
  obtain ⟨e, hentries, -, hfind⟩ := literal_host_matches (Route.new [.get] (.ofPath "/") "page") hliteral hletters
    rfl hregister (by decide)
  refine ⟨hliteral, r, e, hregister, hentries, ?_⟩
  exact (hfind ⟨.get, "1.2.3.V4.EXAMPLE.org..", "/", .empty⟩ ".." (by simp) (by decide) (by decide) rfl).2.trans
    (if_neg (by decide))

/-- A request for a host that has a route finds the route. -/
def MatchesItself (host : String) : Prop :=
  ∀ n r, register (hostRoute host) (empty .default {}) = .ok n r →
    ∃ e captures, (r.find ⟨.get, host, "/", .empty⟩).result = .found e captures

theorem not_matchesItself {host : String} {n : Nat}
    (hattached : attached? (register (hostRoute host) (empty .default {})) = some n)
    (hfound : (((empty .default {}).registered (hostRoute host)).find ⟨.get, host, "/", .empty⟩).result.found?.isNone
      = true) : ¬ MatchesItself host := by
  intro hmatches
  obtain ⟨e, captures, hresult⟩ := hmatches n _ (register_eq_registered hattached)
  rw [hresult] at hfound
  cases hfound

/-- A port, and a letter that only a template has in lower case. -/
theorem literal_hosts_astray : (LiteralHost "a.org:80" ∧ ¬ MatchesItself "a.org:80") ∧
    LiteralHost "Ä.org" ∧ ¬ MatchesItself "Ä.org" := by
  have hliteral : ∀ host ∈ ["a.org:80", "Ä.org"], LiteralHost host := by
    intro host hhost
    simp only [List.mem_cons, List.not_mem_nil, or_false] at hhost
    rcases hhost with rfl | rfl <;>
      exact ⟨⟨by decide, by decide⟩, by decide, by decide, by decide, by decide⟩
  refine ⟨⟨hliteral _ (by decide), ?_⟩, hliteral _ (by decide), ?_⟩
  · exact not_matchesItself (n := 1) (by decide +kernel) (by decide +kernel)
  · exact not_matchesItself (n := 1) (by decide +kernel) (by decide +kernel)

end Router

end UriRouting
