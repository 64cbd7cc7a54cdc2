import UriRouting.Proofs.Router.Alone
import UriRouting.Proofs.Trie.Joined
/-!
Routes under a prefix.

A prefix is put before the path of a route as a text. If the prefix is a path on its own, the slash behind it
finds no parenthesis, quotation or bracket open, and the path of the route is read as on its own:
`ofString_prefixed`. The delimiter for this slash parts the forms of the two, so that the rows of keys are
those of the prefix, each followed by each of the route's own, and the route takes what splits into segments
that the prefix takes and segments that its own path takes: `prefix_concatenates`.
-/

namespace UriRouting

open Text

/-! ## Texts -/

namespace UriTemplate

/-- A prefix without the slashes at its ends. -/
def trimmedPath (segments : String) : List Char := trimBoth isSlash segments.toList

theorem prefixPath_of_nil {segments : String} (h : trimmedPath segments = []) (t : UriTemplate) :
    t.prefixPath segments = t := if_pos h

theorem prefixPath_of_ne {segments : String} (h : trimmedPath segments ≠ []) (t : UriTemplate) :
    (t.prefixPath segments).path.toList = '/' :: trimmedPath segments ++ t.path.toList := by
  have hpath : t.prefixPath segments
      = { t with path := "/" ++ String.ofList (trimmedPath segments) ++ t.path } := if_neg h
  rw [hpath, String.toList_append, String.toList_append, String.toList_ofList, String.toList_ofList,
    List.singleton_append]

/-- A prefix as a path on its own. -/
def ofPrefix (segments : String) : UriTemplate := ofPath (String.ofList (trimmedPath segments))

theorem toList_ofPrefix (segments : String) :
    (ofPrefix segments).path.toList = '/' :: trimmedPath segments := by
  have hdrop : (trimmedPath segments).dropWhile isSlash = trimmedPath segments := by
    by_cases h : trimmedPath segments = []
    · rw [h]
      rfl
    · have hdrop := dropWhile_trimBoth h []
      rwa [List.append_nil] at hdrop
  rw [ofPrefix, ofPath, String.toList_ofList, String.toList_ofList, hdrop]

theorem source_of_hostless {t : UriTemplate} (h : t.host? = none) : t.source = t.path := by
  rw [source, h]
  exact String.empty_append

/-- Behind no host or a whole one, a path is read as on its own. -/
theorem reads_path {t : UriTemplate} (hpath : ∃ rest, t.path.toList = '/' :: rest)
    (hhost : ∀ host, t.host? = some host → isWholeHost host = true) {template : Template}
    (hread : Template.ofString t.source = .ok template) :
    Template.ofString t.path = .ok ⟨none, template.path⟩ := by
  obtain ⟨rest, hpath⟩ := hpath
  cases hnone : t.host? with
  | none =>
    rw [source_of_hostless hnone] at hread
    have htemplate : template = ⟨none, template.path⟩ := by rw [← host?_of_path hpath hread]
    rw [hread, ← htemplate]
  | some host =>
    have hsource : t.source = host ++ t.path := by rw [source, hnone, Option.getD_some]
    rw [hsource] at hread
    exact (reads_of_wholeHost hpath hread (hhost host hnone)).2.1

end UriTemplate

open UriTemplate (trimmedPath)

/-! ## Templates -/

/-- A text that begins with a slash is parsed as a path. -/
theorem ofString_path_iff {text : String} {rest : List Char} (htext : text.toList = '/' :: rest) {t : Template} :
    Template.ofString text = .ok t ↔ ∃ more, lex text = .ok (slashToken :: more) ∧ t.host? = none ∧
      parseSide .path (slashToken :: more) .eof = .ok t.path := by
  rw [ofString_ok_iff]
  constructor
  · intro h
    obtain ⟨tokens, hlex, hspelled⟩ := h
    obtain ⟨more, rfl⟩ := lex_slash_first htext hlex
    obtain ⟨hhost, hpath⟩ := (spelledBy_of_slash rfl).mp hspelled
    exact ⟨more, hlex, hhost, parseSide_ok_iff.mpr hpath⟩
  · intro h
    obtain ⟨more, hlex, hhost, hpath⟩ := h
    exact ⟨_, hlex, (spelledBy_of_slash rfl).mpr ⟨hhost, parseSide_ok_iff.mp hpath⟩⟩

/-- Behind a path, another one is read as on its own. -/
theorem ofString_prefixed {before after joined : String} {rest rest' : List Char}
    (hbefore : before.toList = '/' :: rest) (hafter : after.toList = '/' :: rest')
    (hjoined : joined.toList = before.toList ++ after.toList) {front inside : Template}
    (hfront : Template.ofString before = .ok front) (hinside : Template.ofString joined = .ok inside) :
    ∃ later, Template.ofString after = .ok ⟨none, .delimiter :: later⟩ ∧
      inside.path = front.path ++ .delimiter :: later := by
  have htext : joined.toList = '/' :: (rest ++ after.toList) := by rw [hjoined, hbefore, List.cons_append]
  have hslash : slashToken.isPunctuation "/" = true := rfl
  obtain ⟨tokens, hlex, -, hparse⟩ := (ofString_path_iff hbefore).mp hfront
  obtain ⟨all, hlexAll, -, hparseAll⟩ := (ofString_path_iff htext).mp hinside
  -- The scan ends outside parentheses, as the parser does, and so reads on as if it began.
  obtain ⟨s, s', hrun, hsettle, htokens⟩ := lex_ok_iff.mp hlex
  have hdepth : s'.depth = 0 := by
    have hside : Side.path = .host → ∀ t ∈ slashToken :: tokens, t.isPunctuation "/" = false := nofun
    rw [depth_of_scan hrun hsettle, ← htokens]
    exact (parseSide_texts (lex_spelled hlex) hside hparse).2
  obtain ⟨own, hlexOwn, hall⟩ := lex_path hrun hsettle hdepth hafter hjoined hlexAll
  obtain ⟨more, rfl⟩ := lex_slash_first hafter hlexOwn
  rw [hall, ← htokens] at hparseAll
  replace hparseAll : parseSide .path ((slashToken :: tokens) ++ slashToken :: more) .eof = .ok inside.path :=
    hparseAll
  rw [parseSide_behind hslash hparse] at hparseAll
  cases hlater : parseSide .path more .eof with
  | error e =>
    rw [hlater] at hparseAll
    cases hparseAll
  | ok later =>
    rw [hlater] at hparseAll
    refine ⟨later, (ofString_path_iff hafter).mpr ⟨more, hlexOwn, rfl, ?_⟩, (Except.ok.inj hparseAll).symm⟩
    rw [parseSide_cons_slash .eof hslash, hlater]
    rfl

/-- The parts of a prefix and of a path, put together: side by side, unless the prefix is empty. -/
inductive Prefixed : (front own inside : List (Part Slot)) → Prop
  | empty (own : List (Part Slot)) : Prefixed [.delimiter] own own
  | behind (front later : List (Part Slot)) :
    Prefixed front (.delimiter :: later) (front ++ .delimiter :: later)

/-! ## Rows of keys -/

namespace Compiler

variable {c : Compiler} {side : Side}

theorem expand_nil (c : Compiler) (side : Side) : c.expand side [] = .ok [[]] := by
  have hkeys : c.keysOf side [] = .ok [] := by
    have hlimit : ¬ c.config.maxSegments < (segmentsOf []).length := Nat.not_lt_zero _
    rw [keysOf]
    exact (if_neg hlimit).trans rfl
  rw [expand_eq]
  show [[]].mapM (c.keysOf side) = _
  rw [List.mapM_cons, hkeys]
  rfl

/-- A path under a prefix stands for the rows of the prefix, each followed by each of its own. -/
theorem mem_expand_prefixed {front own inside : List (Part Slot)} (h : Prefixed front own inside)
    {rows : List (List Key)} (hrows : c.expand side inside = .ok rows) :
    ∃ fronts owns, c.expand side front = .ok fronts ∧ c.expand side own = .ok owns ∧
      ∀ row, row ∈ rows ↔ ∃ a ∈ fronts, ∃ b ∈ owns, row = a ++ b := by
  cases h with
  | empty =>
    refine ⟨[[]], rows, c.expand_nil side, hrows, fun row => ?_⟩
    simp only [List.mem_singleton, exists_eq_left, List.nil_append, exists_eq_right']
  | behind front later =>
    obtain ⟨fronts, owns, hfronts, howns⟩ := exists_expand_seam (.delimiter front) hrows
    exact ⟨fronts, owns, hfronts, howns, fun row => mem_expand_seam (.delimiter front) hfronts howns hrows⟩

end Compiler

/-- A compiled template has a path that takes these segments, with these captures. -/
def CompiledTemplate.TakesPath (t : CompiledTemplate) (segments : List String) (captures : Captures) : Prop :=
  ∃ row ∈ t.paths, RowTakes row segments captures

theorem CompiledTemplate.takesPath_append {t t' joined : CompiledTemplate}
    (h : ∀ row, row ∈ joined.paths ↔ ∃ a ∈ t.paths, ∃ b ∈ t'.paths, row = a ++ b) {segments : List String}
    {captures : Captures} : joined.TakesPath segments captures ↔ ∃ front back ahead behind,
      segments = front ++ back ∧ t.TakesPath front ahead ∧ t'.TakesPath back behind ∧
        captures = ahead ++ behind := by
  constructor
  · intro hpath
    obtain ⟨row, hrow, htakes⟩ := hpath
    obtain ⟨a, ha, b, hb, rfl⟩ := (h row).mp hrow
    obtain ⟨front, back, ahead, behind, hsegments, hfront, hback, hcaptures⟩ := rowTakes_append.mp htakes
    exact ⟨front, back, ahead, behind, hsegments, ⟨a, ha, hfront⟩, ⟨b, hb, hback⟩, hcaptures⟩
  · intro hsplit
    obtain ⟨front, back, ahead, behind, hsegments, ⟨a, ha, hfront⟩, ⟨b, hb, hback⟩, hcaptures⟩ := hsplit
    exact ⟨a ++ b, (h _).mpr ⟨a, ha, b, hb, rfl⟩,
      rowTakes_append.mpr ⟨front, back, ahead, behind, hsegments, hfront, hback, hcaptures⟩⟩

/-! ## Routes -/

namespace Route

variable {α : Type}

def withTemplate (r : Route α) (template : UriTemplate) : Route α := { r with template }

@[simp] theorem withTemplate_name? (r : Route α) (t : UriTemplate) : (r.withTemplate t).name? = r.name? := rfl

@[simp] theorem withTemplate_variableRules (r : Route α) (t : UriTemplate) :
    (r.withTemplate t).variableRules = r.variableRules := rfl

/-- What a prefix makes of a route: nested under the prefix, or in a group that has it. -/
inductive Under (segments : String) (r : Route α) : Route α → Prop
  | nest : Under segments r (r.prefixed segments)
  | group (o : GroupOptions) (h : o.segments? = some segments) : Under segments r (o.apply r)

section

variable {segments : String} {route inside : Route α}

theorem Under.path (h : route.Under segments inside) :
    inside.template.path = (route.template.prefixPath segments).path := by
  cases h with
  | nest => rw [Route.prefixed]
  | group o h =>
    rw [GroupOptions.apply]
    unfold GroupOptions.applyTemplate
    rw [h]
    cases o.host? with
    | none => dsimp only
    | some host => dsimp only [UriTemplate.appendHost, UriTemplate.withHost]

theorem Under.path_slash (h : route.Under segments inside) (hpath : ∃ rest, route.template.path.toList = '/' :: rest) :
    ∃ rest, inside.template.path.toList = '/' :: rest := by
  rw [h.path]
  exact UriTemplate.prefixPath_path hpath segments

/-- Under a prefix that is a path on its own, the path of a route is read as on its own. -/
theorem Under.reads (h : route.Under segments inside) (hpath : ∃ rest, route.template.path.toList = '/' :: rest)
    (hwhole : ∀ host, inside.template.host? = some host → isWholeHost host = true) {front template : Template}
    (hfront : Template.ofString (UriTemplate.ofPrefix segments).source = .ok front)
    (hread : Template.ofString inside.template.source = .ok template) :
    ∃ own, Template.ofString route.template.path = .ok ⟨none, own⟩ ∧
      Prefixed front.path own template.path := by
  have hinside := UriTemplate.reads_path (h.path_slash hpath) hwhole hread
  rw [h.path] at hinside
  have hslash := UriTemplate.toList_ofPrefix segments
  by_cases hnil : trimmedPath segments = []
  · rw [UriTemplate.prefixPath_of_nil hnil] at hinside
    have hempty : Template.ofString "/" = .ok ⟨none, [.delimiter]⟩ := by rfl
    have hsource : (UriTemplate.ofPrefix segments).source = "/" := by
      rw [UriTemplate.ofPrefix, hnil]
      rfl
    rw [hsource, hempty] at hfront
    cases hfront
    exact ⟨template.path, hinside, .empty _⟩
  · obtain ⟨rest, hpath⟩ := hpath
    have hjoined := UriTemplate.prefixPath_of_ne hnil route.template
    rw [← hslash] at hjoined
    obtain ⟨later, hown, hparts⟩ := ofString_prefixed hslash hpath hjoined
      (UriTemplate.reads_path ⟨_, hslash⟩ nofun hfront) hinside
    refine ⟨_, hown, ?_⟩
    replace hparts : template.path = front.path ++ .delimiter :: later := hparts
    rw [hparts]
    exact .behind front.path later

theorem Under.name? (h : route.Under segments inside) : inside.name? = route.name? := by
  cases h with
  | nest => rw [Route.prefixed]
  | group o _ => rw [GroupOptions.apply]

theorem Under.variableRules (h : route.Under segments inside) :
    inside.variableRules = route.variableRules := by
  cases h with
  | nest => rw [Route.prefixed]
  | group o _ => rw [GroupOptions.apply]

end

theorem prefixed_of_nil {segments : String} (h : trimmedPath segments = []) (route : Route α) :
    route.prefixed segments = route := by
  rw [prefixed, UriTemplate.prefixPath_of_nil h]

/-- A group with a prefix of slashes does what it does without the prefix. -/
theorem apply_of_nil {segments : String} (h : trimmedPath segments = []) {o : GroupOptions}
    (ho : o.segments? = some segments) (route : Route α) :
    o.apply route = ({ o with segments? := none } : GroupOptions).apply route := by
  have htemplate : o.applyTemplate route.template
      = ({ o with segments? := none } : GroupOptions).applyTemplate route.template := by
    unfold GroupOptions.applyTemplate
    rw [ho]
    dsimp only
    rw [UriTemplate.prefixPath_of_nil h]
  unfold GroupOptions.apply
  rw [htemplate]

end Route

namespace Router

variable {α : Type} {r : Router α}

theorem compilerFor_congr (r : Router α) {route route' : Route α}
    (h : route.variableRules = route'.variableRules) : r.compilerFor route = r.compilerFor route' := by
  have hrules : route.rulesFor = route'.rulesFor := by
    funext name
    rw [Route.rulesFor, Route.rulesFor, h]
  rw [compilerFor, compilerFor, hrules]

/-- In a router of its own, a route for every host is visited for the paths that its keys take. -/
theorem Accepts.comesBy_hostless {route : Route α} {template : Template} {keys : CompiledTemplate}
    (h : r.Accepts route template keys) (hhosts : keys.hosts = [none]) {host path : String} {captures : Captures} :
    ((empty r.factory r.config).registered route).ComesBy 0 host path captures ↔
      keys.TakesPath (segmentsOfPath path) captures := by
  rw [h.comesBy_alone, hhosts]
  constructor
  · intro htakes
    obtain ⟨row, hrow, host?, hhost, ofPath, ofHost, htakes, hlabels, rfl⟩ := htakes
    rw [List.mem_singleton.mp hhost] at hlabels
    obtain rfl : ofHost = [] := hlabels
    rw [List.append_nil]
    exact ⟨row, hrow, htakes⟩
  · intro htakes
    obtain ⟨row, hrow, htakes⟩ := htakes
    exact ⟨row, hrow, none, List.mem_singleton_self _, captures, [], htakes, rfl, (List.append_nil _).symm⟩

/-- A route is accepted with these keys. If it has no host, a walk through a router of its own comes by it for
the paths that the keys take, whatever the host. -/
structure PathsOf (r : Router α) (route : Route α) (keys : CompiledTemplate) : Prop where
  accepted : ∃ template, r.Accepts route template keys
  alone : route.template.host? = none → ∀ host path captures,
    ((empty r.factory r.config).registered route).ComesBy 0 host path captures ↔
      keys.TakesPath (segmentsOfPath path) captures

theorem Accepts.pathsOf {route : Route α} {template : Template} {keys : CompiledTemplate}
    (h : r.Accepts route template keys) (hpath : ∃ rest, route.template.path.toList = '/' :: rest) :
    r.PathsOf route keys := by
  refine ⟨⟨template, h⟩, fun hhost host path captures => h.comesBy_hostless ?_⟩
  obtain ⟨rest, hpath⟩ := hpath
  have hreads := h.reads
  rw [UriTemplate.source_of_hostless hhost] at hreads
  obtain ⟨-, hhosts⟩ | ⟨parts, -, hparts, -⟩ := (Compiler.compile_ok h.compiles).2
  · exact hhosts
  · rw [host?_of_path hpath hreads] at hparts
    cases hparts

/-- A route with a path that is read and expanded is accepted, if its name is free. -/
theorem accepts_of_path {route : Route α} (hname : ∀ name, route.name? = some name → r.names.contains name = false)
    (hhost : route.template.host? = none) {parts : List (Part Slot)}
    (hreads : Template.ofString route.template.path = .ok ⟨none, parts⟩) {rows : List (List Key)}
    (hrows : (r.compilerFor route).expand .path parts = .ok rows) :
    r.Accepts route ⟨none, parts⟩ ⟨rows, none⟩ := by
  refine ⟨hname, (UriTemplate.source_of_hostless hhost).symm ▸ hreads, ?_⟩
  rw [Compiler.compile, hrows]
  rfl

/-- Prefixing is concatenation. If a prefix is a path on its own, a route under it that registers takes a path
exactly if its segments are some that the prefix takes and then some that the route takes without the prefix,
and it captures from them what the two do. A prefix of slashes changes nothing. A group may give the route a
host too, if this is a whole one, so that neither is read as a piece of the other. -/
theorem prefix_concatenates (route : Route α) (segments : String) :
    (trimmedPath segments = [] → route.prefixed segments = route ∧
      ({ segments? := some segments } : GroupOptions).apply route = route ∧
      ∀ o : GroupOptions, o.segments? = some segments →
        o.apply route = ({ o with segments? := none } : GroupOptions).apply route) ∧
    ∀ front, Template.ofString (UriTemplate.ofPrefix segments).source = .ok front →
      route.template.Composed → route.template.host? = none →
      ∀ inside, route.Under segments inside →
      (∀ host, inside.template.host? = some host → isWholeHost host = true) →
      ∀ (r r' : Router α) (attached : Nat), register inside r = .ok attached r' →
      ∃ frontKeys ownKeys insideKeys : CompiledTemplate,
        r.PathsOf (route.withTemplate (.ofPrefix segments)) frontKeys ∧
        r.PathsOf route ownKeys ∧ r.PathsOf inside insideKeys ∧
        ∀ requested captures, insideKeys.TakesPath requested captures ↔ ∃ before after ahead behind,
          requested = before ++ after ∧ frontKeys.TakesPath before ahead ∧ ownKeys.TakesPath after behind ∧
            captures = ahead ++ behind := by
  refine ⟨fun hnil => ⟨route.prefixed_of_nil hnil, route.apply_of_nil hnil rfl, fun o ho =>
    route.apply_of_nil hnil ho⟩, ?_⟩
  intro front hfront hcomposed hhostless inside hunder hwhole r r' attached hregister
  obtain ⟨e, hrefused⟩ | ⟨template, insideKeys, haccepts, -⟩ := register_cases inside r
  · rw [hrefused] at hregister
    cases hregister
  have hname : ∀ name, route.name? = some name → r.names.contains name = false := by
    rw [← hunder.name?]
    exact haccepts.nameFree
  obtain ⟨own, hown, hprefixed⟩ := hunder.reads hcomposed.path_slash hwhole hfront haccepts.reads
  obtain ⟨hinside, -⟩ := Compiler.compile_ok haccepts.compiles
  rw [compilerFor_congr r hunder.variableRules] at hinside
  obtain ⟨fronts, owns, hfronts, howns, hrows⟩ := Compiler.mem_expand_prefixed hprefixed hinside
  have hslash : ∃ rest, (route.withTemplate (.ofPrefix segments)).template.path.toList = '/' :: rest :=
    ⟨_, UriTemplate.toList_ofPrefix segments⟩
  have hreads := UriTemplate.reads_path hslash nofun hfront
  rw [← compilerFor_congr r (route.withTemplate_variableRules (.ofPrefix segments))] at hfronts
  have hfrontName : ∀ name, (route.withTemplate (.ofPrefix segments)).name? = some name →
      r.names.contains name = false := by
    rw [Route.withTemplate_name?]
    exact hname
  have hfrontPaths := (accepts_of_path hfrontName rfl hreads hfronts).pathsOf hslash
  have hownPaths := (accepts_of_path hname hhostless hown howns).pathsOf hcomposed.path_slash
  have hinsidePaths := haccepts.pathsOf (hunder.path_slash hcomposed.path_slash)
  exact ⟨_, _, insideKeys, hfrontPaths, hownPaths, hinsidePaths, fun requested captures =>
    CompiledTemplate.takesPath_append hrows⟩

def item : Route String := Route.new [.get] (.ofPath "/:id") "item"

/-- An item of a shop that may have a language. -/
theorem prefix_concatenates_shop : ∃ frontKeys ownKeys before after ahead behind,
    (empty .default {}).PathsOf (item.withTemplate (.ofPrefix "shop[/:lang]/")) frontKeys ∧
    (empty .default {}).PathsOf item ownKeys ∧ segmentsOfPath "/shop/en/7" = before ++ after ∧
    frontKeys.TakesPath before ahead ∧ ownKeys.TakesPath after behind ∧
    [("lang", "en"), ("id", "7")] = ahead ++ behind := by
  have hsource : (UriTemplate.ofPrefix "shop[/:lang]/").source = "/shop[/:lang]" := by decide +kernel
  have hread : Template.ofString "/shop[/:lang]"
      = .ok ⟨none, [.delimiter, .text "shop", .optional [.delimiter, .var ⟨"lang", []⟩]]⟩ := by rfl
  have hruns : attached? (register (item.prefixed "shop[/:lang]/") (empty .default {})) = some 2 ∧
      (((empty .default {}).registered (item.prefixed "shop[/:lang]/")).survey "" "/shop/en/7" 9).exhausted
        = false ∧
      ((empty .default {}).registered (item.prefixed "shop[/:lang]/")).Surveyed "" "/shop/en/7" 9 0
        [("lang", "en"), ("id", "7")] := by
    decide +kernel
  obtain ⟨hregisters, hexhausted, hseen⟩ := hruns
  obtain ⟨r', hregister⟩ := exists_of_attached? hregisters
  obtain ⟨-, hconcatenates⟩ := prefix_concatenates item "shop[/:lang]/"
  obtain ⟨frontKeys, ownKeys, insideKeys, hfront, hown, hinside, hsplits⟩ := hconcatenates _
    (hsource ▸ hread) (.ofPath "/:id") rfl _ .nest nofun _ r' 2 hregister
  have htakes := (hinside.alone rfl "" "/shop/en/7" _).mp ((surveyed_iff hexhausted).mp hseen)
  obtain ⟨before, after, ahead, behind, hsegments, hbefore, hafter, hcaptures⟩ := (hsplits _ _).mp htakes
  exact ⟨frontKeys, ownKeys, before, after, ahead, behind, hfront, hown, hsegments, hbefore, hafter, hcaptures⟩

end Router

end UriRouting
