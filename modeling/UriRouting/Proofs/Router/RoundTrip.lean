import UriRouting.Proofs.Router.Outcome
import UriRouting.Proofs.Router.Rendering
import UriRouting.Proofs.Router.Shape
import UriRouting.Proofs.Router.Visits
import UriRouting.Proofs.Template.Seams
/-!
URIs lead back to their routes.

The URI of a route is taken by the route itself, if every segment and label is a text or a variable
alone and every value is as plain as a request shows it. What is written between the segments may
still get lost: an empty segment in a path belongs to no key, and a host is cut at its colon.
-/

namespace UriRouting

open Text

variable {α : Type}

/-! ## Parts of a URI -/

namespace Template

def pathWriter (bindings : List (String × String)) : Renderer :=
  ⟨.path, fun name => bindings.lookup name, percentEncode⟩

def hostWriter (bindings : List (String × String)) : Renderer :=
  ⟨.host, fun name => bindings.lookup name, id⟩

/-- The slots that the URI of a template fills, each with its side. -/
def filled (t : Template) (bindings : List (String × String)) : List (Side × Slot) :=
  ((pathWriter bindings).filled false t.path).1.map (Side.path, ·) ++
    (t.host?.toList.flatMap fun host => ((hostWriter bindings).filled false host).1).map (Side.host, ·)

/-- The host and the path of a URI of a template. Without a host the URI is a path. -/
def partsOfUri (t : Template) (uri : String) : String × String :=
  match t.host? with
  | none => ("", uri)
  | some _ =>
    let rest := (uri.toList.dropWhile (· ≠ '/')).drop 2
    (String.ofList (rest.takeWhile (· ≠ '/')), String.ofList (rest.dropWhile (· ≠ '/')))

theorem partsOfUri_bound {t : Template} (ht : t.host? ≠ none) {httpsOnly : Bool} {host path : String}
    (hhost : '/' ∉ host.toList) (hpath : path.toList.head? = some '/') :
    t.partsOfUri ((if httpsOnly then "https" else "http") ++ "://" ++ host ++ path) = (host, path) := by
  obtain ⟨parts, hparts⟩ := Option.ne_none_iff_exists'.mp ht
  obtain ⟨rest, hrest⟩ := List.head?_eq_some_iff.mp hpath
  have hscheme : (((if httpsOnly then "https" else "http") ++ "://" ++ host ++ path).toList.dropWhile
      (· ≠ '/')).drop 2 = host.toList ++ path.toList := by
    cases httpsOnly <;> simp
  have hplain : ∀ c ∈ host.toList, decide (c ≠ '/') = true := fun c hc =>
    decide_eq_true fun h => hhost (h ▸ hc)
  unfold partsOfUri
  rw [hparts]
  dsimp only
  rw [hscheme, List.takeWhile_append_of_pos hplain, List.dropWhile_append_of_pos hplain, hrest,
    List.takeWhile_cons_of_neg (by simp), List.dropWhile_cons_of_neg (by simp), List.append_nil,
    ← hrest, String.ofList_toList, String.ofList_toList]

/-- The URI of a template is the text of its path, behind the text of its host if it has one. -/
theorem uri_ok {t : Template} {httpsOnly : Bool} {bindings : List (String × String)} {uri : String}
    (h : t.uri httpsOnly bindings = .ok uri) :
    ∃ text, (pathWriter bindings).text t.path = .ok text ∧
      ((t.host? = none ∧ uri = if text = "" then "/" else text) ∨
        ∃ parts host, t.host? = some parts ∧ (hostWriter bindings).text parts = .ok host ∧
          uri = (if httpsOnly then "https" else "http") ++ "://" ++ host ++
            if text = "" then "/" else text) := by
  unfold Template.uri at h
  obtain ⟨text, htext, h⟩ := except_bind_ok h
  refine ⟨text, htext, ?_⟩
  cases hparts : t.host? with
  | none =>
    rw [hparts] at h
    cases h
    exact Or.inl ⟨rfl, rfl⟩
  | some parts =>
    rw [hparts] at h
    obtain ⟨host, hhost, h⟩ := except_bind_ok h
    cases h
    exact Or.inr ⟨parts, host, rfl, hhost, rfl⟩

end Template

/-! ## Plain values -/

/-- A variable accepts a value which needs no encoding, cuts no host and is in lower case there. -/
def Variable.takesPlainly (side : Side) (v : Variable) (value : String) : Bool :=
  v.accepts value && value.toList.all (fun c => isUnreserved c && c ≠ '.') &&
    (side = .path || lowercaseAscii value = value)

theorem Variable.takesPlainly_iff {side : Side} {v : Variable} {value : String} :
    v.takesPlainly side value = true ↔ v.accepts value = true ∧
      (∀ c ∈ value.toList, isUnreserved c = true ∧ c ≠ '.') ∧
      (side = .path ∨ lowercaseAscii value = value) := by
  simp [takesPlainly, and_assoc]

theorem fills_plainly (side : Side) : side.Fills fun v value => v.takesPlainly side value = true := by
  intro v value h
  obtain ⟨haccepts, hplain, hlower⟩ := Variable.takesPlainly_iff.mp h
  refine ⟨haccepts, fun hmem => ?_, ?_⟩
  · obtain ⟨hunreserved, hpoint⟩ := hplain _ hmem
    cases side with
    | host => exact hpoint rfl
    | path => exact absurd hunreserved (by decide)
  · cases side with
    | host => exact hlower.resolve_left (by decide)
    | path => rfl

theorem percentEncode_plain {value : String} (h : ∀ c ∈ value.toList, isUnreserved c = true) :
    percentEncode value = value := by
  have hsame : (value.toList.flatMap fun c =>
      if isUnreserved c then [c] else (String.utf8EncodeChar c).flatMap percentByte)
      = value.toList.flatMap fun c => [c] :=
    List.flatMap_congr fun c hc => if_pos (h c hc)
  rw [percentEncode, hsame, List.flatMap_singleton', String.ofList_toList]

namespace Router

/-- The template of a registered route reads as it did when it was registered. -/
theorem Sound.uriFor_eq {r : Router α} (h : r.Sound) {name : String} {e : Entry α}
    (hnamed : r.named? name = some e) (bindings : List (String × String)) :
    r.uriFor name bindings
      = (e.template.uri e.route.template.httpsOnly bindings).mapError (.missingVariable name) := by
  obtain ⟨i, -, hi⟩ := Option.bind_eq_some_iff.mp hnamed
  unfold uriFor
  rw [hnamed]
  dsimp only
  rw [h.reads e (List.mem_of_getElem? hi)]

/-- A slot is filled with a value that its variable takes plainly. -/
def fillsPlainly (r : Router α) (e : Entry α) (bindings : List (String × String)) (side : Side)
    (slot : Slot) : Bool :=
  match (r.compilerFor e.route).variableOf slot, bindings.lookup slot.name with
  | .ok v, some value => v.takesPlainly side value
  | _, _ => true

/-- A URI was made for a route by its name. The segments and labels of the route are texts or
variables alone, and all values of the URI are plain. -/
structure PlainUri (r : Router α) (name : String) (bindings : List (String × String)) (e : Entry α)
    (uri : String) : Prop where
  named : r.named? name = some e
  single : ∀ k ∈ r.keysOf e, k.isSingle = true
  filled : ∀ fill ∈ e.template.filled bindings, r.fillsPlainly e bindings fill.1 fill.2 = true
  made : r.uriFor name bindings = .ok uri

/-- Whether the URI of a route would be plain. -/
def isPlain (r : Router α) (e : Entry α) (bindings : List (String × String)) : Bool :=
  (r.keysOf e).all Key.isSingle &&
    (e.template.filled bindings).all fun fill => r.fillsPlainly e bindings fill.1 fill.2

namespace PlainUri

variable {r : Router α} {name : String} {bindings : List (String × String)} {e : Entry α} {uri : String}

theorem of_isPlain (hnamed : r.named? name = some e) (hplain : r.isPlain e bindings = true)
    (hmade : r.uriFor name bindings = .ok uri) : r.PlainUri name bindings e uri := by
  obtain ⟨hsingle, hfilled⟩ := Bool.and_eq_true_iff.mp hplain
  exact ⟨hnamed, List.all_eq_true.mp hsingle, List.all_eq_true.mp hfilled, hmade⟩

theorem mem_entries (h : r.PlainUri name bindings e uri) : e ∈ r.entries := by
  obtain ⟨i, -, hi⟩ := Option.bind_eq_some_iff.mp h.named
  exact List.mem_of_getElem? hi

theorem uri_eq (h : r.PlainUri name bindings e uri) (hr : Reachable r) :
    e.template.uri e.route.template.httpsOnly bindings = .ok uri := by
  have hmade := h.made
  rw [hr.sound.uriFor_eq h.named] at hmade
  cases huri : e.template.uri e.route.template.httpsOnly bindings with
  | error fault =>
    rw [huri] at hmade
    cases hmade
  | ok uri' =>
    rw [huri] at hmade
    cases hmade
    rfl

theorem takesPlainly (h : r.PlainUri name bindings e uri) {side : Side} {slot : Slot}
    (hmem : (side, slot) ∈ e.template.filled bindings) {v : Variable} {value : String}
    (hv : (r.compilerFor e.route).variableOf slot = .ok v) (hvalue : bindings.lookup slot.name = some value) :
    v.takesPlainly side value = true := by
  have hfills := h.filled _ hmem
  unfold fillsPlainly at hfills
  rw [hv, hvalue] at hfills
  exact hfills

theorem path_values (h : r.PlainUri name bindings e uri) :
    ∀ slot ∈ ((Template.pathWriter bindings).filled false e.template.path).1, ∀ v value,
      (r.compilerFor e.route).variableOf slot = .ok v → bindings.lookup slot.name = some value →
      v.takesPlainly .path (percentEncode value) = true := by
  intro slot hslot v value hv hvalue
  have hplain : v.takesPlainly .path value = true :=
    h.takesPlainly (List.mem_append_left _ (List.mem_map_of_mem hslot)) hv hvalue
  rw [percentEncode_plain fun c hc => ((Variable.takesPlainly_iff.mp hplain).2.1 c hc).1]
  exact hplain

theorem host_values (h : r.PlainUri name bindings e uri) {parts : List (Part Slot)}
    (hparts : e.template.host? = some parts) :
    ∀ slot ∈ ((Template.hostWriter bindings).filled false parts).1, ∀ v value,
      (r.compilerFor e.route).variableOf slot = .ok v → bindings.lookup slot.name = some value →
      v.takesPlainly .host value = true := by
  intro slot hslot v value hv hvalue
  refine h.takesPlainly (List.mem_append_right _ (List.mem_map_of_mem ?_)) hv hvalue
  rw [hparts]
  exact List.mem_flatMap.mpr ⟨parts, List.mem_singleton_self parts, hslot⟩

/-- Some row of the path of a route takes the path of its URI. -/
theorem path_taken (h : r.PlainUri name bindings e uri) (hr : Reachable r) {text : String}
    (htext : (Template.pathWriter bindings).text e.template.path = .ok text)
    (hsegments : "" ∉ segmentsOfPath (if text = "" then "/" else text)) :
    ∃ row ∈ (r.compiledOf e).paths, ∃ captures,
      RowTakes row (segmentsOfPath (if text = "" then "/" else text)) captures := by
  have hexpand := (Compiler.compile_ok (hr.sound.compiles e h.mem_entries)).1
  obtain ⟨row, hrow, htakes⟩ := Compiler.exists_row_of_render (w := Template.pathWriter bindings) hexpand
    htext (ofString_texts (hr.sound.reads e h.mem_entries)).1 (fills_plainly .path)
    (fun row hrow k hk => h.single k (mem_keysOf_path hrow k hk))
    h.path_values fun hhost => nomatch hhost
  have hpieces : Side.path.piecesOf text = segmentsOfPath (if text = "" then "/" else text) := by
    rw [segmentsOfPath_eq hsegments]
    split
    · next hempty =>
      rw [hempty]
      rfl
    · rfl
  rw [← hpieces]
  exact ⟨row, hrow, exists_rowTakes htakes⟩

/-- How the host of a route was compiled. -/
theorem host_compiled (h : r.PlainUri name bindings e uri) (hr : Reachable r) {parts : List (Part Slot)}
    (hparts : e.template.host? = some parts) :
    ∃ rows, (r.compilerFor e.route).expand .host parts = .ok rows ∧
      (r.compiledOf e).hosts = rows.map fun row => some row.reverse := by
  rcases (Compiler.compile_ok (hr.sound.compiles e h.mem_entries)).2 with
    ⟨hnone, -⟩ | ⟨parts', rows, hsome, hexpand, hhosts⟩
  · rw [hparts] at hnone
    cases hnone
  · rw [hparts] at hsome
    cases hsome
    exact ⟨rows, hexpand, hhosts⟩

/-- The host of a URI holds no slash and no bracket. -/
theorem host_closed (h : r.PlainUri name bindings e uri) (hr : Reachable r) {parts : List (Part Slot)}
    (hparts : e.template.host? = some parts) {host : String}
    (htext : (Template.hostWriter bindings).text parts = .ok host) :
    '/' ∉ host.toList ∧ '[' ∉ host.toList := by
  obtain ⟨rows, hexpand, -⟩ := h.host_compiled hr hparts
  have htexts := (ofString_texts (hr.sound.reads e h.mem_entries)).2 parts hparts
  have hclosed : ∀ ch ∈ Side.host.reserved, ch ≠ '.' → isUnreserved ch = false → ch ∉ host.toList := by
    intro ch hreserved hpoint hch
    have hplain : ∀ v value, Variable.takesPlainly .host v value = true → ch ∉ value.toList := by
      intro v value hv hmem
      have hunreserved := ((Variable.takesPlainly_iff.mp hv).2.1 ch hmem).1
      rw [hch] at hunreserved
      cases hunreserved
    exact Compiler.not_mem_of_render (w := Template.hostWriter bindings) hexpand htext htexts hreserved
      hpoint hplain (h.host_values hparts)
  exact ⟨hclosed '/' (by decide) (by decide) (by decide), hclosed '[' (by decide) (by decide) (by decide)⟩

/-- Some row of the host of a route takes the host of its URI. -/
theorem host_taken (h : r.PlainUri name bindings e uri) (hr : Reachable r) {parts : List (Part Slot)}
    (hparts : e.template.host? = some parts) {host : String}
    (htext : (Template.hostWriter bindings).text parts = .ok host) (hlabels : "" ∉ labelsOf host)
    (hcolon : ':' ∉ host.toList) (hlower : lowercase host = lowercaseAscii host) :
    ∃ host? ∈ (r.compiledOf e).hosts, ∃ captures, HostTakes host host? captures := by
  obtain ⟨rows, hexpand, hhosts⟩ := h.host_compiled hr hparts
  have hmem : ∀ row ∈ rows, some row.reverse ∈ (r.compiledOf e).hosts := by
    intro row hrow
    rw [hhosts]
    exact List.mem_map_of_mem hrow
  obtain ⟨row, hrow, htakes⟩ := Compiler.exists_row_of_render (w := Template.hostWriter bindings) hexpand
    htext ((ofString_texts (hr.sound.reads e h.mem_entries)).2 parts hparts) (fills_plainly .host)
    (fun row hrow k hk => h.single k (mem_keysOf_host (hmem row hrow) k (List.mem_reverse.mpr hk)))
    (h.host_values hparts) fun _ => lowercase_eq_ascii_iff.mp hlower
  have hpieces : (Side.host.piecesOf host).reverse = labelsOf host :=
    (labelsOf_eq (h.host_closed hr hparts htext).2 hcolon hlabels).symm
  have hreversed := exists_rowTakes (List.forall₂_reverse_iff.mpr htakes)
  rw [show (Template.hostWriter bindings).side = Side.host from rfl, hpieces] at hreversed
  exact ⟨_, hmem row hrow, hreversed⟩

/-- Some rows of a route take its URI, unless the host has a port or one of its letters is no ASCII
letter but has a lowercase form, or a segment or label is empty. -/
theorem exists_taken (h : r.PlainUri name bindings e uri) (hr : Reachable r) {host path : String}
    (hparts : e.template.partsOfUri uri = (host, path)) (hsegments : "" ∉ segmentsOfPath path)
    (hlabels : "" ∉ labelsOf host) (hcolon : ':' ∉ host.toList)
    (hlower : lowercase host = lowercaseAscii host) :
    ∃ row ∈ (r.compiledOf e).paths, ∃ host? ∈ (r.compiledOf e).hosts, ∃ ofPath ofHost,
      RowTakes row (segmentsOfPath path) ofPath ∧ HostTakes host host? ofHost := by
  obtain ⟨text, htext, huri⟩ := Template.uri_ok (h.uri_eq hr)
  rcases huri with ⟨hnone, rfl⟩ | ⟨parts, host', hsome, hhost, rfl⟩
  · rw [Template.partsOfUri, hnone] at hparts
    obtain ⟨rfl, rfl⟩ := Prod.mk.inj hparts
    obtain ⟨row, hrow, ofPath, htakes⟩ := h.path_taken hr htext hsegments
    have hhosts : none ∈ (r.compiledOf e).hosts := by
      rcases (Compiler.compile_ok (hr.sound.compiles e h.mem_entries)).2 with
        ⟨-, hhosts⟩ | ⟨parts, rows, hsome, -⟩
      · rw [hhosts]
        exact List.mem_singleton_self none
      · rw [hnone] at hsome
        cases hsome
    exact ⟨row, hrow, none, hhosts, ofPath, [], htakes, rfl⟩
  · have hne : e.template.host? ≠ none := by
      rw [hsome]
      exact Option.some_ne_none parts
    have hrooted : (if text = "" then "/" else text).toList.head? = some '/' := by
      rcases ofString_path (hr.sound.reads e h.mem_entries) hne with hnil | ⟨rest, hrest⟩
      · rw [hnil] at htext
        cases htext
        rfl
      · rw [hrest] at htext
        obtain ⟨omitted, hrender⟩ := Renderer.text_ok htext
        obtain ⟨here, between, later, hhere, -, rfl⟩ := Renderer.render_cons_ok hrender
        cases hhere
        rw [if_neg fun hempty => String.singleton_ne_empty (String.append_eq_empty_iff.mp hempty).1,
          String.toList_append, String.toList_singleton]
        rfl
    rw [Template.partsOfUri_bound hne (h.host_closed hr hsome hhost).1 hrooted] at hparts
    obtain ⟨rfl, rfl⟩ := Prod.mk.inj hparts
    obtain ⟨row, hrow, ofPath, htakes⟩ := h.path_taken hr htext hsegments
    obtain ⟨host?, hmem, ofHost, htakesHost⟩ := h.host_taken hr hsome hhost hlabels hcolon hlower
    exact ⟨row, hrow, host?, hmem, ofPath, ofHost, htakes, htakesHost⟩

end PlainUri

/-! ## Routing back -/

/-- What a walk comes by is registered. -/
theorem Reachable.entry_mem {r : Router α} (h : Reachable r) {host path : String} {c : Candidate α}
    (hc : c ∈ r.candidates host path) : c.entry ∈ r.entries := by
  obtain ⟨a, ha, hc⟩ := List.mem_flatMap.mp hc
  obtain ⟨s, hs, hleaf⟩ := at_of_arrival ha
  have hend := (h.inShape _ s hs).good
  rw [hleaf] at hend
  rcases List.mem_append.mp hc with hc | hc
  · obtain ⟨b, hb, hc⟩ := List.mem_flatMap.mp hc
    obtain ⟨e, he, rfl⟩ := List.mem_map.mp hc
    split at hb
    · cases hb
    · next hosts hhosts =>
      obtain ⟨s', hs', hleaf'⟩ := at_of_arrival hb
      have hattached := ((hend.hosts hosts hhosts).nodes _ s' hs').good
      rw [hleaf'] at hattached
      exact hattached.1 e he
  · obtain ⟨e, he, rfl⟩ := List.mem_map.mp hc
    exact hend.attached.1 e he

/-- A walk that a host and a path start comes by a route, as long as its budget lasts. -/
def Visits (r : Router α) (e : Entry α) (host path : String) : Prop :=
  ∀ steps, (r.survey host path steps).exhausted = false →
    ∃ captures, (e, captures) ∈ (r.survey host path steps).seen

/-- A search finds a route that its walk comes by, if there is no other and it asks for nothing. -/
theorem Reachable.find_only {r : Router α} (h : Reachable r) {e : Entry α} (honly : r.entries = [e])
    (hconstraints : e.route.constraints = []) {req : Request} (hmethod : e.route.allows req.method = true)
    (hexhausted : (r.find req).exhausted = false) {c : Candidate α}
    (hc : c ∈ r.candidates req.host req.path) :
    ∃ captures, (r.find req).result = .found e captures := by
  have hentry : ∀ c ∈ r.candidates req.host req.path, c.entry = e := by
    intro c hc
    have hmem := h.entry_mem hc
    rw [honly] at hmem
    exact List.mem_singleton.mp hmem
  obtain ⟨v, hresult, hfound, -⟩ := find_settled hexhausted
  have haccepts : req.accepts (c.entry, c.captures) = true := by
    rw [Request.accepts, hentry c hc, hmethod, Route.constraintsPass, hconstraints]
    rfl
  cases hfind : ((r.candidates req.host req.path).map fun c => (c.entry, c.captures)).find? req.accepts with
  | none =>
    have hrejects := List.find?_eq_none.mp hfind _ (List.mem_map.mpr ⟨c, hc, rfl⟩)
    exact absurd haccepts hrejects
  | some w =>
    obtain ⟨c', hc', rfl⟩ := List.mem_map.mp (List.mem_of_find?_eq_some hfind)
    rw [hresult, Verdict.result, hfound, hfind, hentry c' hc']
    exact ⟨_, rfl⟩

/-- The URI of a route leads back to it. -/
theorem Reachable.uri_routes_back {r : Router α} (h : Reachable r) (hseparate : Separate r.ruleParams)
    {name : String} {bindings : List (String × String)} {e : Entry α} {uri host path : String}
    (huri : r.PlainUri name bindings e uri) (hparts : e.template.partsOfUri uri = (host, path))
    (hsegments : "" ∉ segmentsOfPath path) (hlabels : "" ∉ labelsOf host) (hcolon : ':' ∉ host.toList)
    (hlower : lowercase host = lowercaseAscii host) :
    (∃ c : Candidate α, c.entry = e ∧ c.Matches r host path) ∧ r.Visits e host path ∧
      (r.entries = [e] → e.route.constraints = [] → ∀ req : Request, req.host = host →
        req.path = path → e.route.allows req.method = true → (r.find req).exhausted = false →
        ∃ captures, (r.find req).result = .found e captures) := by
  obtain ⟨row, hrow, host?, hhost, ofPath, ofHost, htakes, htakesHost⟩ :=
    huri.exists_taken h hparts hsegments hlabels hcolon hlower
  have he := huri.mem_entries
  have hmem := h.sound.candidate_of_takes hseparate he hrow hhost htakes htakesHost
  obtain ⟨hpaths, hhosts⟩ := Compiler.mem_compile (h.sound.compiles e he)
  refine ⟨⟨⟨e, row, host?, ofPath ++ ofHost⟩, rfl, he, ?_, ofPath, ofHost, htakes, htakesHost, rfl⟩,
    fun steps hsteps => ?_, ?_⟩
  · exact ⟨_, h.sound.reads e he, (hpaths row).mp hrow, (hhosts host?).mp hhost⟩
  · rw [survey_seen hsteps]
    exact ⟨_, List.mem_map.mpr ⟨_, hmem, rfl⟩⟩
  · rintro honly hconstraints req rfl rfl hmethod hexhausted
    exact h.find_only honly hconstraints hmethod hexhausted hmem

/-- A router with one route that has a name. -/
def lone (host path : String) : Router String :=
  (empty .default {}).registered
    { Route.new [.get] ((UriTemplate.ofPath path).withHost host) "lone" with name? := some "lone" }

theorem lone_reachable (host path : String) : Reachable (lone host path) := (Reachable.empty _ _).register _

def tenants : Router String := lone ":tenant.[eu.]a.org" "/items[/:id(int)][/all][/:part]"

/-- The optional parts without variables are written, and the last one lacks its variable. -/
theorem uri_routes_back_tenants :
    ∃ e : Entry String, Reachable tenants ∧
      tenants.PlainUri "lone" [("tenant", "acme"), ("id", "7")] e "http://acme.eu.a.org/items/7/all" ∧
      tenants.Visits e "acme.eu.a.org" "/items/7/all" ∧
      ∃ captures, (tenants.find ⟨.get, "acme.eu.a.org", "/items/7/all", .empty⟩).result
        = .found e captures := by
  have hruns : (tenants.named? "lone").any (fun e =>
        tenants.isPlain e [("tenant", "acme"), ("id", "7")] &&
        decide (e.template.partsOfUri "http://acme.eu.a.org/items/7/all"
          = ("acme.eu.a.org", "/items/7/all")) &&
        e.route.constraints.isEmpty && e.route.allows .get) = true ∧
      tenants.uriFor "lone" [("tenant", "acme"), ("id", "7")] = .ok "http://acme.eu.a.org/items/7/all" ∧
      tenants.ruleParams = [] ∧ tenants.entries.length = 1 ∧
      (tenants.find ⟨.get, "acme.eu.a.org", "/items/7/all", .empty⟩).exhausted = false ∧
      "" ∉ segmentsOfPath "/items/7/all" ∧ "" ∉ labelsOf "acme.eu.a.org" ∧
      ':' ∉ "acme.eu.a.org".toList ∧ lowercase "acme.eu.a.org" = lowercaseAscii "acme.eu.a.org" := by
    decide +kernel
  obtain ⟨hnamed, hmade, hparams, hlength, hexhausted, hsegments, hlabels, hcolon, hlower⟩ := hruns
  obtain ⟨e, hnamed, hplain⟩ := (Option.any_eq_true _ _).mp hnamed
  simp only [Bool.and_eq_true, decide_eq_true_eq, List.isEmpty_iff] at hplain
  obtain ⟨⟨⟨hplain, hparts⟩, hconstraints⟩, hmethod⟩ := hplain
  have huri := PlainUri.of_isPlain hnamed hplain hmade
  have hseparate : Separate tenants.ruleParams := by
    rw [hparams]
    exact fun p hp => (List.not_mem_nil hp).elim
  have honly : tenants.entries = [e] := by
    obtain ⟨e', he'⟩ := List.length_eq_one_iff.mp hlength
    have he := huri.mem_entries
    rw [he', List.mem_singleton] at he
    rw [he', he]
  have hreachable : Reachable tenants := lone_reachable _ _
  obtain ⟨-, hvisits, hfind⟩ := hreachable.uri_routes_back hseparate huri hparts hsegments hlabels hcolon
    hlower
  exact ⟨e, hreachable, huri, hvisits, hfind honly hconstraints _ rfl rfl hmethod hexhausted⟩

/-! ## URIs that lead astray -/

/-- The URIs that are made by a name with some values lead back. -/
def UrisRouteBack (r : Router α) (name : String) (bindings : List (String × String)) : Prop :=
  ∀ e uri host path, r.PlainUri name bindings e uri → e.template.partsOfUri uri = (host, path) →
    r.Visits e host path

/-- A URI is made by a name, and a walk with some steps comes by nothing. -/
def strays (r : Router α) (name : String) (bindings : List (String × String)) (steps : Nat) : Bool :=
  (r.named? name).any fun e => r.isPlain e bindings &&
    match r.uriFor name bindings with
    | .ok uri =>
      let parts := e.template.partsOfUri uri
      let walk := r.survey parts.1 parts.2 steps
      !walk.exhausted && walk.seen.isEmpty
    | .error _ => false

theorem not_routeBack_of_strays {r : Router α} {name : String} {bindings : List (String × String)}
    {steps : Nat} (h : r.strays name bindings steps = true) : ¬ r.UrisRouteBack name bindings := by
  intro hback
  obtain ⟨e, hnamed, h⟩ := (Option.any_eq_true _ _).mp h
  obtain ⟨hplain, h⟩ := Bool.and_eq_true_iff.mp h
  split at h
  · next uri hmade =>
    simp only [Bool.and_eq_true, Bool.not_eq_true', List.isEmpty_iff] at h
    obtain ⟨captures, hseen⟩ := hback e uri (e.template.partsOfUri uri).1
      (e.template.partsOfUri uri).2 (.of_isPlain hnamed hplain hmade) rfl steps h.1
    rw [h.2] at hseen
    cases hseen
  · cases h

/-- Two routes whose rules have the two zeros for their parameters, the later one with a name. -/
def namedZeros : Router String :=
  (empty .default {})
    |>.registered ((Route.new [.get] (.ofPath "/:v") "positive").addRule "v"
        ⟨"in", [.float (.signed false 0)]⟩)
    |>.registered { (Route.new [.post] (.ofPath "/:v") "negative").addRule "v"
        ⟨"in", [.float (.signed true 0)]⟩ with name? := some "negative" }

theorem namedZeros_reachable : Reachable namedZeros := by
  unfold namedZeros
  exact ((Reachable.empty _ _).register _).register _

/-- An empty segment, a port, an empty label, a letter that only some lowercase, and a rule that is
taken for another one. -/
theorem uris_lead_astray :
    (Reachable (lone "" "/a//b") ∧ ¬ (lone "" "/a//b").UrisRouteBack "lone" []) ∧
      (Reachable (lone "a.org:80" "/") ∧ ¬ (lone "a.org:80" "/").UrisRouteBack "lone" []) ∧
      (Reachable (lone "a..org" "/") ∧ ¬ (lone "a..org" "/").UrisRouteBack "lone" []) ∧
      (Reachable (lone "Ä.org" "/") ∧ ¬ (lone "Ä.org" "/").UrisRouteBack "lone" []) ∧
      Reachable namedZeros ∧ ¬ namedZeros.UrisRouteBack "negative" [("v", "-0")] := by
  have hstray : (lone "" "/a//b").strays "lone" [] 9 = true ∧
      (lone "a.org:80" "/").strays "lone" [] 9 = true ∧ (lone "a..org" "/").strays "lone" [] 9 = true ∧
      (lone "Ä.org" "/").strays "lone" [] 9 = true ∧
      namedZeros.strays "negative" [("v", "-0")] 9 = true := by decide +kernel
  obtain ⟨hsegment, hport, hlabel, hletter, hzeros⟩ := hstray
  exact ⟨⟨lone_reachable _ _, not_routeBack_of_strays hsegment⟩,
    ⟨lone_reachable _ _, not_routeBack_of_strays hport⟩,
    ⟨lone_reachable _ _, not_routeBack_of_strays hlabel⟩,
    ⟨lone_reachable _ _, not_routeBack_of_strays hletter⟩,
    namedZeros_reachable, not_routeBack_of_strays hzeros⟩

end Router

end UriRouting
