import UriRouting.Proofs.Route.Suffixes
import UriRouting.Proofs.Router.Candidates
import UriRouting.Proofs.Template.Hosts
import UriRouting.Proofs.Trie.Joined
import UriRouting.Proofs.Trie.Resolved
/-!
Routes in groups that have a host.

The host of a group comes after that of a route. The two together take the hosts whose labels are labels
of the one and then labels of the other: `group_hosts_join`. The host of the route must not end with
optional parts behind a text or a variable, for then the period between the two is optional as well:
`group_hosts_glued`.
-/

namespace UriRouting

open UriTemplate (trimmedHost)

/-! ## Seams -/

namespace Part

/-- If a row ends with optional parts, then a delimiter or nothing comes before them. -/
def endsClean {ν : Type} (parts : List (Part ν)) : Bool :=
  !(parts.getLast?.any isOptional) || (parts.reverse.dropWhile isOptional).head?.all isDelimiter

end Part

theorem endsCut_of_optionalsEnd {parts : List (Part Slot)} (h : OptionalsEnd parts)
    (hclean : (parts.reverse.dropWhile Part.isOptional).head?.all Part.isDelimiter = true) :
    EndsCut parts := by
  induction parts using List.reverseRecOn with
  | nil => exact .nil
  | append_singleton front p ih =>
    rw [List.reverse_concat, List.dropWhile_cons] at hclean
    cases p with
    | delimiter => exact .delimiter front
    | text s => cases hclean
    | var slot => cases hclean
    | optional inner =>
      obtain ⟨inner', rfl⟩ : ∃ inner', inner = inner' ++ [.delimiter] :=
        List.getLast?_eq_some_iff.mp (h inner (by simp))
      exact .optional inner' (ih (fun i hi => h i (List.mem_append_left _ hi)) hclean)

/-- Hosts that are read side by side are parted by a seam. -/
theorem exists_seam {host suffix between rest : List Char} {parts parts' : List (Part Slot)}
    (h : ReadsHost host parts) (h' : ReadsHost suffix parts') (hclean : Part.endsClean parts = true)
    (hbetween : between = ['.'] ∨ between = [] ∧ ∃ front, host = front ++ [']']) {text : String}
    (htext : text.toList = host ++ (between ++ suffix) ++ '/' :: rest) {t : Template}
    (hread : Template.ofString text = .ok t) :
    ∃ seam, Seam parts seam ∧ t.host? = some (parts ++ (seam ++ parts')) := by
  rcases hbetween with rfl | ⟨rfl, front, rfl⟩
  · obtain ⟨last, hlast⟩ : ∃ last, (host ++ '.' :: suffix).foldlM Scan.read {} = .ok last := by
      obtain ⟨tokens, hlex, -⟩ := ofString_ok hread
      unfold lex at hlex
      rw [htext, List.foldlM_append] at hlex
      obtain ⟨_, hrun, -⟩ := except_bind_ok hlex
      obtain ⟨last, hlast, -⟩ := except_bind_ok hrun
      exact ⟨last, hlast⟩
    refine ⟨[.delimiter], .delimiter parts, ?_⟩
    exact (h.join h' hlast).ofString (by simp) htext hread
  · obtain ⟨⟨ahead, inner, rfl⟩, hjoined⟩ := h.behindOptional h'
    have hcut : EndsCut (ahead ++ [.optional inner]) := by
      refine endsCut_of_optionalsEnd h.optionalsEnd ?_
      simpa [Part.endsClean, Part.isOptional] using hclean
    have htext' : text.toList = (front ++ ']' :: suffix) ++ '/' :: rest := by
      rw [htext]
      simp
    exact ⟨[], .none hcut, hjoined.ofString (by simp) htext' hread⟩

/-! ## Labels -/

theorem rowTakes_append_iff {row row' : List Key} {labels : List String} :
    (∃ captures, RowTakes (row ++ row') labels captures) ↔ ∃ front back, labels = front ++ back ∧
      (∃ captures, RowTakes row front captures) ∧ ∃ captures, RowTakes row' back captures := by
  constructor
  · intro h
    obtain ⟨captures, h⟩ := h
    obtain ⟨front, back, ahead, behind, hlabels, hfront, hback, -⟩ := rowTakes_append.mp h
    exact ⟨front, back, hlabels, ⟨ahead, hfront⟩, behind, hback⟩
  · intro h
    obtain ⟨front, back, hlabels, ⟨ahead, hfront⟩, behind, hback⟩ := h
    exact ⟨ahead ++ behind, rowTakes_append.mpr ⟨front, back, ahead, behind, hlabels, hfront, hback, rfl⟩⟩

theorem eq_of_rowTakes_literals {texts labels : List String} {captures : Captures}
    (h : RowTakes (texts.map Key.literal) labels captures) : labels = texts := by
  rw [rowTakes_iff_captureRow?, captureRow?_literals] at h
  split at h
  · assumption
  · cases h

/-- A compiled template has a host that takes these labels, which are given from the last one on. -/
def CompiledTemplate.TakesLabels (t : CompiledTemplate) (labels : List String) : Prop :=
  ∃ row, some row ∈ t.hosts ∧ ∃ captures, RowTakes row labels captures

instance (t : CompiledTemplate) (labels : List String) : Decidable (t.TakesLabels labels) :=
  decidable_of_iff
    ((t.hosts.any fun host? => host?.any fun row => (captureRow? row labels).isSome) = true) <| by
    simp only [CompiledTemplate.TakesLabels, List.any_eq_true, Option.any_eq_true,
      Option.isSome_iff_exists, rowTakes_iff_captureRow?]
    constructor
    · rintro ⟨host?, hhost, row, rfl, htakes⟩
      exact ⟨row, hhost, htakes⟩
    · rintro ⟨row, hhost, htakes⟩
      exact ⟨some row, hhost, row, rfl, htakes⟩

theorem CompiledTemplate.takesLabels_iff {t : CompiledTemplate} {rows : List (List Key)}
    (h : t.hosts = rows.map fun row => some row.reverse) {labels : List String} :
    t.TakesLabels labels ↔ ∃ row ∈ rows, ∃ captures, RowTakes row.reverse labels captures := by
  unfold TakesLabels
  rw [h]
  constructor
  · intro hlabels
    obtain ⟨labels', hmem, htakes⟩ := hlabels
    obtain ⟨row, hrow, hreverse⟩ := List.mem_map.mp hmem
    rw [← Option.some.inj hreverse] at htakes
    exact ⟨row, hrow, htakes⟩
  · intro hlabels
    obtain ⟨row, hrow, htakes⟩ := hlabels
    exact ⟨row.reverse, List.mem_map.mpr ⟨row, hrow, rfl⟩, htakes⟩

/-- A compiled template whose host has the rows of two others takes the labels that split. -/
theorem CompiledTemplate.takesLabels_append {t t' joined : CompiledTemplate}
    {rows rows' all : List (List Key)} (h : t.hosts = rows.map fun row => some row.reverse)
    (h' : t'.hosts = rows'.map fun row => some row.reverse)
    (hjoined : joined.hosts = all.map fun row => some row.reverse)
    (hall : ∀ row, row ∈ all ↔ ∃ a ∈ rows, ∃ b ∈ rows', row = a ++ b) {labels : List String} :
    joined.TakesLabels labels ↔ ∃ front rest, labels.reverse = front ++ rest ∧
      t.TakesLabels front.reverse ∧ t'.TakesLabels rest.reverse := by
  rw [takesLabels_iff hjoined]
  constructor
  · intro hlabels
    obtain ⟨row, hrow, htakes⟩ := hlabels
    obtain ⟨a, ha, b, hb, rfl⟩ := (hall row).mp hrow
    rw [List.reverse_append] at htakes
    obtain ⟨back, front, rfl, hback, hfront⟩ := rowTakes_append_iff.mp htakes
    refine ⟨front.reverse, back.reverse, List.reverse_append, (takesLabels_iff h).mpr ⟨a, ha, ?_⟩,
      (takesLabels_iff h').mpr ⟨b, hb, ?_⟩⟩
    · rw [List.reverse_reverse]
      exact hfront
    · rw [List.reverse_reverse]
      exact hback
  · intro hsplit
    obtain ⟨front, rest, hlabels, hfront, hrest⟩ := hsplit
    obtain ⟨a, ha, hfront⟩ := (takesLabels_iff h).mp hfront
    obtain ⟨b, hb, hrest⟩ := (takesLabels_iff h').mp hrest
    refine ⟨a ++ b, (hall _).mpr ⟨a, ha, b, hb, rfl⟩, ?_⟩
    rw [List.reverse_append]
    refine rowTakes_append_iff.mpr ⟨rest.reverse, front.reverse, ?_, hrest, hfront⟩
    rw [← List.reverse_append, ← hlabels, List.reverse_reverse]

/-! ## Groups -/

/-- A route with a host and a path in place of its own. -/
def Route.placedAt {α : Type} (r : Route α) (host path : String) : Route α :=
  { r with template := (UriTemplate.ofPath path).withHost host }

namespace Router

variable {α : Type} {r : Router α} {route : Route α}

/-- What a route has for a host is read as such. -/
theorem Accepts.readsHost {host : String} {t : Template} {compiled : CompiledTemplate}
    (h : r.Accepts (route.placedAt host "/") t compiled) (hslash : '/' ∉ host.toList)
    {parts : List (Part Slot)} (hparts : t.host? = some parts) :
    trimmedHost host ≠ [] ∧ ReadsHost (trimmedHost host) parts := by
  have hsource : (route.placedAt host "/").template.source.toList = trimmedHost host ++ ['/'] :=
    UriTemplate.source_withHost _ host
  refine ⟨fun hnil => ?_,
    readsHost_of_ofString hsource (fun hmem => hslash (Text.mem_of_mem_trimBoth hmem)) h.reads hparts⟩
  rw [hnil] at hsource
  have hslash : (route.placedAt host "/").template.source = "/" := String.toList_inj.mp hsource
  have hempty : Template.ofString "/" = .ok ⟨none, [.delimiter]⟩ := by rfl
  have hreads := h.reads
  rw [hslash, hempty] at hreads
  cases hreads
  cases hparts

theorem Accepts.expands {t : Template} {compiled : CompiledTemplate} (h : r.Accepts route t compiled)
    {parts : List (Part Slot)} (hparts : t.host? = some parts) : ∃ rows,
      (r.compilerFor route).expand .host parts = .ok rows ∧
        compiled.hosts = rows.map fun row => some row.reverse := by
  rcases (Compiler.compile_ok h.compiles).2 with ⟨hnone, -⟩ | ⟨parts', rows, hsome, hexpand, hhosts⟩
  · rw [hnone] at hparts
    cases hparts
  · rw [hsome] at hparts
    cases hparts
    exact ⟨rows, hexpand, hhosts⟩

theorem row_of_exampleCom {c : Compiler} {row : List Key}
    (h : c.Spells .host [.text "example", .delimiter, .text "com"] row) :
    row = [.literal "example", .literal "com"] := by
  obtain ⟨resolved, count, form, hresolve, hform, hrow⟩ := h
  cases hresolve
  have hlabels : form = [.part (.literal "example"), .delimiter, .part (.literal "com")] := by
    cases hform with
    | text _ h =>
      cases h with
      | delimiter h =>
        cases h with
        | text _ h =>
          cases h
          rfl
  have hkeys : (segmentsOf form).mapM (keyOf .host) = .ok [.literal "example", .literal "com"] := by
    rw [hlabels]
    rfl
  unfold Compiler.keysOf at hrow
  dsimp only at hrow
  split at hrow
  · cases hrow
  · exact Except.ok.inj (hrow.symm.trans hkeys)

/-- In a group, a route takes the hosts whose labels are labels of its own host and then labels of the
host of the group. -/
theorem group_hosts_join {o : GroupOptions} {host suffix path : String}
    (hsuffix : o.host? = some suffix) (hslash : '/' ∉ host.toList) (hslash' : '/' ∉ suffix.toList)
    {own outer inside : Template} {ownKeys outerKeys insideKeys : CompiledTemplate}
    (hown : r.Accepts (route.placedAt host "/") own ownKeys)
    (houter : r.Accepts (route.placedAt suffix "/") outer outerKeys)
    (hinside : r.Accepts (o.apply (route.placedAt host path)) inside insideKeys)
    {parts : List (Part Slot)} (hparts : own.host? = some parts) (hclean : Part.endsClean parts = true)
    (hhost : outer.host? ≠ none) :
    (∀ requested, insideKeys.TakesLabels (labelsOf requested) ↔ ∃ front rest,
      (labelsOf requested).reverse = front ++ rest ∧ ownKeys.TakesLabels front.reverse ∧
        outerKeys.TakesLabels rest.reverse) ∧
      (suffix = "example.com" → ∀ requested, insideKeys.TakesLabels (labelsOf requested) →
        ∃ front, (labelsOf requested).reverse = front ++ ["example", "com"]) := by
  obtain ⟨parts', hparts'⟩ := Option.ne_none_iff_exists'.mp hhost
  obtain ⟨hhost, hreads⟩ := hown.readsHost hslash hparts
  obtain ⟨hhost', hreads'⟩ := houter.readsHost hslash' hparts'
  obtain ⟨between, rest, hsource, hbetween⟩ := o.source_applyTemplate path hsuffix hslash' hhost hhost'
  obtain ⟨seam, hseam, hjoined⟩ := exists_seam hreads hreads' hclean hbetween hsource hinside.reads
  obtain ⟨fronts, hfronts, hownHosts⟩ := hown.expands hparts
  obtain ⟨backs, hbacks, houterHosts⟩ := houter.expands hparts'
  obtain ⟨rows, hrows, hinsideHosts⟩ := hinside.expands hjoined
  have hsplits : ∀ labels, insideKeys.TakesLabels labels ↔ ∃ front rest, labels.reverse = front ++ rest ∧
      ownKeys.TakesLabels front.reverse ∧ outerKeys.TakesLabels rest.reverse := fun labels =>
    CompiledTemplate.takesLabels_append hownHosts houterHosts hinsideHosts fun row =>
      Compiler.mem_expand_seam hseam hfronts hbacks hrows
  refine ⟨fun requested => hsplits _, ?_⟩
  rintro rfl requested htakes
  obtain ⟨front, rest, hlabels, -, hrest⟩ := (hsplits _).mp htakes
  have houterParts : outer.host? = some [.text "example", .delimiter, .text "com"] := by
    have hreads := houter.reads
    have hsource : (route.placedAt "example.com" "/").template.source = "example.com/" := by
      show ((UriTemplate.ofPath "/").withHost "example.com").source = "example.com/"
      decide +kernel
    have hread : Template.ofString "example.com/"
        = .ok ⟨some [.text "example", .delimiter, .text "com"], [.delimiter]⟩ := by rfl
    rw [hsource, hread] at hreads
    cases hreads
    rfl
  rw [hparts'] at houterParts
  cases houterParts
  obtain ⟨row, hrow, captures, htakes⟩ := (CompiledTemplate.takesLabels_iff houterHosts).mp hrest
  rw [row_of_exampleCom ((Compiler.mem_expand hbacks).mp hrow)] at htakes
  have hrest : rest.reverse = ["com", "example"] := eq_of_rowTakes_literals htakes
  exact ⟨front, by rw [hlabels, ← List.reverse_reverse rest, hrest]; rfl⟩

/-- What a route without a name is accepted with. -/
def accepted? (r : Router α) (route : Route α) : Option (Template × CompiledTemplate) :=
  match Template.ofString route.template.source with
  | .error _ => none
  | .ok template =>
    match (r.compilerFor route).compile template with
    | .error _ => none
    | .ok compiled => some (template, compiled)

theorem exists_accepts {P : Template × CompiledTemplate → Bool} (hname : route.name? = none)
    (h : (r.accepted? route).any P = true) :
    ∃ template compiled, r.Accepts route template compiled ∧ P (template, compiled) = true := by
  unfold accepted? at h
  split at h
  · cases h
  · next template hreads =>
    split at h
    · cases h
    · next compiled hcompiles =>
      refine ⟨template, compiled, ⟨fun name hsome => ?_, hreads, hcompiles⟩, h⟩
      rw [hname] at hsome
      cases hsome

def page : Route String := Route.new [.get] (.ofPath "/") "page"

def exampleCom : GroupOptions := { host? := some "example.com", segments? := some "shop" }

/-- An optional part that a delimiter comes before. -/
theorem group_hosts_join_api : ∃ own outer inside ownKeys outerKeys insideKeys,
    (empty .default {}).Accepts (page.placedAt "api.[eu.]" "/") own ownKeys ∧
    (empty .default {}).Accepts (page.placedAt "example.com" "/") outer outerKeys ∧
    (empty .default {}).Accepts (exampleCom.apply (page.placedAt "api.[eu.]" "/:id")) inside insideKeys ∧
    (∀ requested, insideKeys.TakesLabels (labelsOf requested) ↔ ∃ front rest,
      (labelsOf requested).reverse = front ++ rest ∧ ownKeys.TakesLabels front.reverse ∧
        outerKeys.TakesLabels rest.reverse) ∧
    ∀ requested, insideKeys.TakesLabels (labelsOf requested) →
      ∃ front, (labelsOf requested).reverse = front ++ ["example", "com"] := by
  have hcheck : ((empty .default {}).accepted? (page.placedAt "api.[eu.]" "/")).any
        (·.1.host?.any Part.endsClean) = true ∧
      ((empty .default {}).accepted? (page.placedAt "example.com" "/")).any (·.1.host?.isSome) = true ∧
      ((empty .default {}).accepted? (exampleCom.apply (page.placedAt "api.[eu.]" "/:id"))).any
        (fun _ => true) = true := by
    decide +kernel
  obtain ⟨hown, houter, hinside⟩ := hcheck
  obtain ⟨own, ownKeys, hown, hclean⟩ := exists_accepts rfl hown
  obtain ⟨outer, outerKeys, houter, hhost⟩ := exists_accepts rfl houter
  obtain ⟨inside, insideKeys, hinside, -⟩ := exists_accepts rfl hinside
  obtain ⟨parts, hparts, hclean⟩ := (Option.any_eq_true _ _).mp hclean
  obtain ⟨hsplits, hends⟩ := group_hosts_join rfl (by decide) (by decide) hown houter hinside hparts hclean
    (Option.isSome_iff_ne_none.mp hhost)
  exact ⟨own, outer, inside, ownKeys, outerKeys, insideKeys, hown, houter, hinside, hsplits, hends rfl⟩

/-- An optional part behind a text is dropped with its period, and the text is joined to a label of the
group. -/
theorem group_hosts_glued : ∃ own outer inside ownKeys outerKeys insideKeys,
    (empty .default {}).Accepts (page.placedAt "api[.v1.]" "/") own ownKeys ∧
    (empty .default {}).Accepts (page.placedAt "example.com" "/") outer outerKeys ∧
    (empty .default {}).Accepts (exampleCom.apply (page.placedAt "api[.v1.]" "/")) inside insideKeys ∧
    insideKeys.TakesLabels (labelsOf "apiexample.com") ∧
    ¬ ∀ requested, insideKeys.TakesLabels (labelsOf requested) ↔ ∃ front rest,
      (labelsOf requested).reverse = front ++ rest ∧ ownKeys.TakesLabels front.reverse ∧
        outerKeys.TakesLabels rest.reverse := by
  have hcheck : ((empty .default {}).accepted? (page.placedAt "api[.v1.]" "/")).any
        (fun t => decide (t.2.TakesLabels ["api"])) = true ∧
      ((empty .default {}).accepted? (page.placedAt "example.com" "/")).any
        (fun t => decide (t.2.TakesLabels ["com", "example"])) = true ∧
      ((empty .default {}).accepted? (exampleCom.apply (page.placedAt "api[.v1.]" "/"))).any
        (fun t => decide (t.2.TakesLabels (labelsOf "apiexample.com") ∧
          ¬ t.2.TakesLabels (labelsOf "api.example.com"))) = true := by
    decide +kernel
  obtain ⟨hown, houter, hinside⟩ := hcheck
  obtain ⟨own, ownKeys, hown, hfront⟩ := exists_accepts rfl hown
  obtain ⟨outer, outerKeys, houter, hrest⟩ := exists_accepts rfl houter
  obtain ⟨inside, insideKeys, hinside, htakes⟩ := exists_accepts rfl hinside
  obtain ⟨hglued, hparted⟩ := of_decide_eq_true htakes
  refine ⟨own, outer, inside, ownKeys, outerKeys, insideKeys, hown, houter, hinside, hglued,
    fun hsplits => hparted ((hsplits _).mpr ⟨["api"], ["example", "com"], by decide +kernel,
      of_decide_eq_true hfront, of_decide_eq_true hrest⟩)⟩

end Router

end UriRouting
