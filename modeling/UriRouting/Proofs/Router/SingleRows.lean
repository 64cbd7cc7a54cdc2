import UriRouting.Proofs.Router.Prefixes
import UriRouting.Proofs.Router.RoundTrip
import UriRouting.Proofs.Router.Steps
/-!
Routes with one row of keys for the path, and at most one for the host, alone in a router.

Such a route is registered as one alternative. The router is a chain of nodes, one for each key, so that
a search needs no more steps than there are keys, and what it finds is told by `captureRows?`:
`Accepts.find_single`.
-/

namespace UriRouting

/-! ## Tries -/

section

variable {β ε : Type} {fresh : β} {update : β → β}

/-- A row that is inserted into a single node makes a chain, whose nodes are tried one after the other. -/
theorem Trie.attempts_insert_single {arrive : β → Captures → List (Event ε)} {n : Nat}
    (hfresh : ∀ captures, attempts (arrive fresh captures) = 0)
    (hupdate : ∀ captures, attempts (arrive (update fresh) captures) ≤ n) (row : List Key)
    (segments : List String) (captures : Captures) :
    attempts ((Trie.insert fresh update row (.single fresh)).events arrive segments captures)
      ≤ row.length + n := by
  induction row generalizing segments captures with
  | nil =>
    rw [List.length_nil, Nat.zero_add]
    cases segments with
    | nil => exact hupdate captures
    | cons segment segments =>
      rw [show Trie.insert fresh update [] (.single fresh) = .node (update fresh) .empty [] from rfl, Trie.events,
        TextIndex.find?_empty]
      exact Nat.zero_le n
  | cons k row ih =>
    cases segments with
    | nil =>
      have hleaf : attempts ((Trie.insert fresh update (k :: row) (.single fresh)).events arrive [] captures)
          = attempts (arrive fresh captures) := by cases k <;> rfl
      rw [hleaf, hfresh]
      exact Nat.zero_le _
    | cons segment segments =>
      rw [List.length_cons]
      cases k with
      | literal text =>
        have hnode : Trie.insert fresh update (.literal text :: row) (.single fresh)
            = .node fresh (TextIndex.alter .empty text (.single fresh) (Trie.insert fresh update row)) [] := rfl
        have hrest := ih segments captures
        rw [hnode, Trie.events, TextIndex.find?_alter TextIndex.sorted_empty, TextIndex.find?_empty,
          TextIndex.find?_empty, Option.getD_none]
        by_cases hsegment : segment = text
        · rw [if_pos hsegment, List.flatMap_nil, List.append_nil, attempts_attempt]
          omega
        · rw [if_neg hsegment]
          exact Nat.zero_le _
      | pattern p =>
        have hnode : Trie.insert fresh update (.pattern p :: row) (.single fresh)
            = .node fresh .empty [(p, Trie.insert fresh update row (.single fresh))] := rfl
        rw [hnode, Trie.events, TextIndex.find?_empty, List.flatMap_singleton, List.nil_append,
          attempts_attempt, attempts_append, attempts_questions]
        cases p.capture? segment with
        | none =>
          change 0 + 0 + 1 ≤ _
          omega
        | some more =>
          have hrest := ih segments (captures ++ more)
          dsimp only
          omega

end

theorem Route.allows_new {α : Type} {methods : List Method} {m : Method} (template : UriTemplate) (action : α)
    (h : methods = [] ∨ m ∈ methods) : (Route.new methods template action).allows m = true := by
  have hmethods : (Route.new methods template action).methods = methods.eraseDups :=
    Method.union_eraseDups [] methods
  rw [Route.allows, hmethods, Bool.or_eq_true, List.contains_iff_mem, List.mem_eraseDups]
  exact h.imp_left fun hnil => by rw [hnil]; rfl

/-! ## Rows -/

/-- A row for the path, and perhaps one for the host. -/
structure SingleRows where
  path : List Key
  host? : Option (List Key) := none

namespace SingleRows

def keys (rows : SingleRows) : CompiledTemplate := ⟨[rows.path], rows.host?.map fun row => [row]⟩

theorem hosts_keys (rows : SingleRows) : rows.keys.hosts = [rows.host?] := by
  obtain ⟨path, host?⟩ := rows
  cases host? <;> rfl

def length (rows : SingleRows) : Nat := rows.path.length + rows.host?.elim 0 List.length

/-- What the rows capture from a host and a path, if they take both. -/
def captureRows? (rows : SingleRows) (host path : String) : Option Captures :=
  (captureRow? rows.path (segmentsOfPath path)).bind fun ofPath =>
    (rows.host?.elim (some []) fun row => captureRow? row (labelsOf host)).map (ofPath ++ ·)

theorem captureRows?_hostless (row : List Key) (host path : String) :
    captureRows? ⟨row, none⟩ host path = captureRow? row (segmentsOfPath path) := by
  simp [captureRows?]

theorem captureRows?_iff {rows : SingleRows} {host path : String} {captures : Captures} :
    rows.captureRows? host path = some captures ↔ ∃ ofPath ofHost, RowTakes rows.path (segmentsOfPath path) ofPath ∧
      HostTakes host rows.host? ofHost ∧ captures = ofPath ++ ofHost := by
  have hhost : ∀ ofHost, (rows.host?.elim (some []) fun row => captureRow? row (labelsOf host)) = some ofHost ↔
      HostTakes host rows.host? ofHost := by
    intro ofHost
    cases rows.host? with
    | none => exact ⟨fun h => (Option.some.inj h).symm, fun h => congrArg some (Eq.symm h)⟩
    | some row => exact rowTakes_iff_captureRow?.symm
  simp only [captureRows?, Option.bind_eq_some_iff, Option.map_eq_some_iff, hhost, ← rowTakes_iff_captureRow?]
  constructor
  · rintro ⟨ofPath, hpath, ofHost, hhost, rfl⟩
    exact ⟨ofPath, ofHost, hpath, hhost, rfl⟩
  · rintro ⟨ofPath, ofHost, hpath, hhost, rfl⟩
    exact ⟨ofPath, hpath, ofHost, hhost, rfl⟩

end SingleRows

namespace Router

variable {α : Type} {factory : RuleFactory} {config : Config} {route : Route α} {template : Template}
  {rows : SingleRows}

/-! ## Registering -/

/-- A route with one row of keys for the path and at most one for the host, in a router of its own. -/
abbrev single (factory : RuleFactory) (config : Config) (route : Route α) (template : Template)
    (rows : SingleRows) : Router α :=
  (empty factory config).extended route template rows.keys

theorem Accepts.register_single (h : (empty factory config : Router α).Accepts route template rows.keys) :
    register route (empty factory config) = .ok 1 (single factory config route template rows) := by
  have hend : RouteTrie.endOf rows.path (.single {}) = ({} : PathEnd α) := Trie.getD_find?_single rows.path
  have hcount : (RouteTrie.attachAll ((empty factory config).entryFor route template) rows.keys.hosts
      rows.keys.paths (.single {})).2 = 1 := by
    rw [rows.hosts_keys]
    simp only [SingleRows.keys, RouteTrie.attachAll, hend]
    cases rows.host? <;> rfl
  rw [h.register_attached]
  exact congrArg (EStateM.Result.ok · _) hcount

/-! ## Searching -/

theorem Accepts.single_reachable (h : (empty factory config : Router α).Accepts route template rows.keys) :
    Reachable (single factory config route template rows) := by
  rw [single, ← h.registered_eq]
  exact (Reachable.empty factory config).register route

theorem attempts_hostEnds (entries : List (Entry α)) (captures : Captures) :
    attempts (hostEnds entries captures) = 0 := by
  refine List.countP_eq_zero.mpr fun event hevent => ?_
  obtain ⟨e, -, he⟩ := List.mem_flatMap.mp hevent
  rw [List.mem_singleton.mp he]
  exact Bool.false_ne_true

/-- A walk tries no more nodes than there are keys. -/
theorem attempts_single (host path : String) :
    attempts ((single factory config route template rows).events host path) ≤ rows.length := by
  have hempty : ∀ captures, attempts (pathEnds (labelsOf host) ({} : PathEnd α) captures) = 0 := fun _ => rfl
  refine Trie.attempts_insert_single hempty (fun captures => ?_) rows.path (segmentsOfPath path) []
  rw [rows.hosts_keys]
  generalize (empty factory config).entryFor route template = e
  cases rows.host? with
  | none => exact Nat.le_of_eq (attempts_hostEnds [e] captures)
  | some row =>
    have hends : pathEnds (labelsOf host) (PathEnd.attachAll e [some row] {}).1 captures
        = (Trie.insert [] (UriRouting.attach e) row (.single [])).events hostEnds (labelsOf host) captures :=
      List.append_nil _
    rw [hends]
    exact Trie.attempts_insert_single (attempts_hostEnds []) (fun captures =>
      Nat.le_of_eq (attempts_hostEnds _ captures)) row (labelsOf host) captures

/-- A search has enough steps if it has one for each key. -/
theorem find_single_steps (hsteps : rows.length ≤ config.maxMatchSteps) (req : Request) :
    ((single factory config route template rows).find req).exhausted = false := by
  rw [find_eq_play]
  exact req.visitor.play_of_attempts_le rfl (Nat.le_trans (attempts_single req.host req.path) hsteps)

theorem find?_of_forall_eq {γ : Type} {p : γ → Bool} {l : List γ} {a : γ} (hall : ∀ b ∈ l, b = a)
    (hmem : a ∈ l) (ha : p a = true) : l.find? p = some a := by
  cases l with
  | nil => cases hmem
  | cons b l =>
    obtain rfl := hall b List.mem_cons_self
    exact List.find?_cons_of_pos ha

theorem Accepts.comesBy_single (h : (empty factory config : Router α).Accepts route template rows.keys)
    (host path : String) {captures : Captures} :
    (single factory config route template rows).ComesBy 0 host path captures ↔
      rows.captureRows? host path = some captures := by
  have halone : ((empty factory config).registered route).ComesBy 0 host path captures ↔ _ := h.comesBy_alone
  rw [rows.hosts_keys] at halone
  rw [SingleRows.captureRows?_iff, single, ← h.registered_eq]
  refine halone.trans ?_
  simp [SingleRows.keys]

/-- A walk visits the route, if its rows take the host and the path, and nothing else. -/
theorem Accepts.mem_visits_single (h : (empty factory config : Router α).Accepts route template rows.keys)
    (host path : String) (w : Visited α) :
    w ∈ ((single factory config route template rows).candidates host path).map (fun c => (c.entry, c.captures)) ↔
      w.1 = (empty factory config).entryFor route template ∧ rows.captureRows? host path = some w.2 := by
  rw [← h.comesBy_single host]
  constructor
  · intro hw
    obtain ⟨c, hc, rfl⟩ := List.mem_map.mp hw
    have hentry := List.mem_singleton.mp (h.single_reachable.entry_mem hc)
    exact ⟨hentry, c, hc, by rw [hentry]; rfl, rfl⟩
  · rintro ⟨hentry, c, hc, -, hcaptures⟩
    have hentry' := List.mem_singleton.mp (h.single_reachable.entry_mem hc)
    exact List.mem_map.mpr ⟨c, hc, Prod.ext (hentry'.trans hentry.symm) hcaptures⟩

/-- A search with enough steps finds the route exactly if its rows take the host and the path. -/
theorem Accepts.find_single (h : (empty factory config : Router α).Accepts route template rows.keys)
    (hconstraints : route.constraints = []) (hsteps : rows.length ≤ config.maxMatchSteps) {req : Request}
    (hmethod : route.allows req.method = true) :
    ((single factory config route template rows).find req).result
      = match rows.captureRows? req.host req.path with
        | some captures => .found ((empty factory config).entryFor route template) captures
        | none => .notFound := by
  have hexhausted : ((single factory config route template rows).find req).exhausted = false :=
    find_single_steps hsteps req
  obtain ⟨v, hresult, hfound, hallowed⟩ := find_settled hexhausted
  have hvisits := h.mem_visits_single req.host req.path
  rw [hresult, Verdict.result, hfound]
  generalize ((single factory config route template rows).candidates req.host req.path).map
    (fun c => (c.entry, c.captures)) = visits at hvisits hallowed
  cases hrow : rows.captureRows? req.host req.path with
  | some captures =>
    have haccepts : req.accepts ((empty factory config).entryFor route template, captures) = true := by
      simp [Request.accepts, entryFor, hmethod, Route.constraintsPass, hconstraints]
    rw [find?_of_forall_eq (fun w hw => ?_) ((hvisits _).mpr ⟨rfl, hrow⟩) haccepts]
    obtain ⟨hentry, hcaptures⟩ := (hvisits w).mp hw
    exact Prod.ext hentry (Option.some.inj (hcaptures.symm.trans hrow))
  | none =>
    have hnil : visits = [] := List.eq_nil_iff_forall_not_mem.mpr fun w hw => by
      cases hrow.symm.trans ((hvisits w).mp hw).2
    subst hnil
    rw [hallowed rfl]
    rfl

/-! ## Inserting paths -/

/-- A path with one row of keys registers in an empty router as one alternative. With steps for its keys, a
search for its method finds it exactly if its row takes the path. -/
theorem tryInsert_single {row : List Key} (methods : List Method) (action : α) {text : String}
    {parts : List (Part Slot)}
    (hreads : Template.ofString (UriTemplate.ofPath text).path = .ok ⟨none, parts⟩)
    (hrow : (⟨factory, config, fun _ => []⟩ : Compiler).expand .path parts = .ok [row]) :
    ∃ (r : Router α) (e : Entry α), tryInsert methods text action (empty factory config) = .ok 1 r ∧
      r.entries = [e] ∧ e.route = .new methods (.ofPath text) action ∧ e.template = ⟨none, parts⟩ ∧
      (row.length ≤ config.maxMatchSteps → ∀ req : Request, (methods = [] ∨ req.method ∈ methods) →
        (r.find req).exhausted = false ∧
        (r.find req).result = match captureRow? row (segmentsOfPath req.path) with
          | some captures => .found e captures
          | none => .notFound) := by
  have hname : ∀ name, (Route.new methods (.ofPath text) action).name? = some name →
      (empty factory config : Router α).names.contains name = false := by
    intro name hname
    cases hname
  have haccepts : (empty factory config : Router α).Accepts (.new methods (.ofPath text) action) ⟨none, parts⟩
      (SingleRows.keys ⟨row, none⟩) := accepts_of_path hname rfl hreads hrow
  refine ⟨_, (empty factory config).entryFor (.new methods (.ofPath text) action) ⟨none, parts⟩,
    haccepts.register_single, rfl, rfl, rfl, fun hsteps req hmethod => ?_⟩
  have hlength : SingleRows.length ⟨row, none⟩ ≤ config.maxMatchSteps := hsteps
  rw [← SingleRows.captureRows?_hostless row req.host]
  exact ⟨find_single_steps hlength req, haccepts.find_single rfl hlength (Route.allows_new _ _ hmethod)⟩

end Router

end UriRouting
