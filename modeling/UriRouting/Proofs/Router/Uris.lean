import UriRouting.Proofs.Router.Registry
import UriRouting.Proofs.Router.RoundTrip
/-!
What a URI is made of.

The optional parts of a row are numbered in the order in which they open, and those before the first one
that lacks a variable are written: `rowBelow` is what is left of the row. Rendering does not count, but passes
on whether something has been left out. `Renderer.render_spec` says that this comes to the same, and that
only a variable outside all optional parts makes it fail. `Router.Reachable.uriFor_spec` is about the URIs
of a router.
-/

namespace UriRouting

/-! ## Numbers of optional parts -/

section

variable {ν : Type}

mutual

/-- The optional parts in a part, in the order in which they open. -/
def Part.optionals : Part ν → List (List (Part ν))
  | .optional parts => parts :: optionalsOf parts
  | .delimiter | .text _ | .var _ => []

/-- The optional parts in a row, in the order in which they open. -/
def optionalsOf : List (Part ν) → List (List (Part ν))
  | [] => []
  | p :: rest => p.optionals ++ optionalsOf rest

end

mutual

/-- What is left of a part without its optional parts whose numbers are not below a limit. The first of
them has the number `k`. -/
def Part.keptBelow (limit k : Nat) : Part ν → List (Part ν)
  | .delimiter => [.delimiter]
  | .text s => [.text s]
  | .var v => [.var v]
  | .optional parts => if k < limit then rowBelow limit (k + 1) parts else []

/-- What is left of a row, as with a part. -/
def rowBelow (limit k : Nat) : List (Part ν) → List (Part ν)
  | [] => []
  | p :: rest => p.keptBelow limit k ++ rowBelow limit (k + p.optionals.length) rest

end

end

def Part.name? : Part Slot → Option String
  | .var slot => some slot.name
  | _ => none

/-- The variables of a row itself, and of none of its optional parts. -/
def ownNames (parts : List (Part Slot)) : List String := parts.filterMap Part.name?

/-! ## Rendering -/

namespace Renderer

/-- The first variable of a row itself that is not bound. -/
def missing? (w : Renderer) (parts : List (Part Slot)) : Option String :=
  (ownNames parts).find? fun name => (w.lookup name).isNone

/-- The number of the first optional part that lacks a variable of its own. -/
def limit (w : Renderer) (parts : List (Part Slot)) : Nat :=
  (optionalsOf parts).findIdx fun inner => (w.missing? inner).isSome

/-- What is written for a part that is not optional. -/
inductive WritesPart (w : Renderer) : Part Slot → String → Prop
  | delimiter : WritesPart w .delimiter (String.singleton w.side.delimiter)
  | text (s : String) : WritesPart w (.text s) s
  | var {slot : Slot} {value : String} (h : w.lookup slot.name = some value) :
    WritesPart w (.var slot) (w.encode value)

/-- A text is what is written for a row: for the row itself and its optional parts before the first one
that lacks a variable. -/
def Writes (w : Renderer) (parts : List (Part Slot)) (text : String) : Prop :=
  ∃ pieces, List.Forall₂ w.WritesPart (rowBelow (w.limit parts) 0 parts) pieces ∧ text = String.join pieces

section

variable {w : Renderer}

theorem canRender_iff {parts : List (Part Slot)} : w.canRender parts = true ↔ w.missing? parts = none := by
  rw [missing?, ownNames, List.find?_eq_none, canRender, List.all_eq_true]
  constructor
  · intro h name hname
    obtain ⟨p, hp, hslot⟩ := List.mem_filterMap.mp hname
    cases p with
    | var slot =>
      cases hslot
      have hbound := h _ hp
      simpa [Option.isSome_iff_ne_none] using hbound
    | _ => cases hslot
  · intro h p hp
    cases p with
    | var slot =>
      have hbound := h slot.name (List.mem_filterMap.mpr ⟨_, hp, rfl⟩)
      simpa [Option.isSome_iff_ne_none] using hbound
    | _ => rfl

/-- Optional parts, from the number `k` on, are below a limit if nothing has been left out and none of
them lacks a variable so far. -/
def Numbered (w : Renderer) (limit : Nat) : Bool → Nat → List (List (Part Slot)) → Prop
  | _, _, [] => True
  | omitted, k, inner :: rest =>
    (k < limit ↔ omitted = false ∧ w.missing? inner = none) ∧
      Numbered w limit (omitted || (w.missing? inner).isSome) (k + 1) rest

theorem numbered_append_iff {limit k : Nat} {omitted : Bool} {as bs : List (List (Part Slot))} :
    w.Numbered limit omitted k (as ++ bs) ↔ w.Numbered limit omitted k as ∧
      w.Numbered limit (omitted || as.any fun inner => (w.missing? inner).isSome) (k + as.length) bs := by
  induction as generalizing omitted k with
  | nil => simp [Numbered]
  | cons inner as ih =>
    rw [List.cons_append, Numbered, Numbered, ih, List.any_cons, List.length_cons, Bool.or_assoc,
      and_assoc, Nat.add_right_comm, Nat.add_assoc]

theorem numbered_omitted {limit k : Nat} (h : limit ≤ k) (opts : List (List (Part Slot))) :
    w.Numbered limit true k opts := by
  induction opts generalizing k with
  | nil => trivial
  | cons inner opts ih =>
    refine ⟨⟨fun hk => absurd hk (Nat.not_lt.mpr h), fun hno => nomatch hno.1⟩, ?_⟩
    rw [Bool.true_or]
    exact ih (h.trans (Nat.le_succ k))

theorem numbered_findIdx (k : Nat) (opts : List (List (Part Slot))) :
    w.Numbered (k + opts.findIdx fun inner => (w.missing? inner).isSome) false k opts := by
  induction opts generalizing k with
  | nil => trivial
  | cons inner opts ih =>
    rw [List.findIdx_cons, Numbered]
    cases hmissing : w.missing? inner with
    | none =>
      have hrest := ih (k + 1)
      rw [Nat.add_right_comm, Nat.add_assoc] at hrest
      simpa using hrest
    | some name => simpa using numbered_omitted (Nat.le_succ k) opts

theorem missing?_var {slot : Slot} {rest : List (Part Slot)} :
    w.missing? (.var slot :: rest)
      = if (w.lookup slot.name).isNone then some slot.name else w.missing? rest := by
  show List.find? _ (slot.name :: ownNames rest) = _
  rw [List.find?_cons]
  cases (w.lookup slot.name).isNone <;> rfl

theorem numbered_limit (w : Renderer) (parts : List (Part Slot)) :
    w.Numbered (w.limit parts) false 0 (optionalsOf parts) := by
  have hnumbered := numbered_findIdx (w := w) 0 (optionalsOf parts)
  rwa [Nat.zero_add] at hnumbered

/-- How rendering a row ends: it lacks a variable, or writes the row without what is left out. -/
def EndsAs (w : Renderer) (limit k : Nat) (omitted : Bool) (parts : List (Part Slot)) : Prop :=
  match w.missing? parts with
  | some name => w.render omitted parts = .error name
  | none => ∃ pieces, List.Forall₂ w.WritesPart (rowBelow limit k parts) pieces ∧
      w.render omitted parts = .ok (String.join pieces,
        omitted || (optionalsOf parts).any fun inner => (w.missing? inner).isSome)

theorem render_cons {omitted between : Bool} {p : Part Slot} {rest : List (Part Slot)} {here : String}
    (h : w.renderPart omitted p = .ok (here, between)) :
    w.render omitted (p :: rest)
      = (w.render between rest).map fun (later, omitted) => (here ++ later, omitted) := by
  rw [render, h]
  dsimp only
  cases w.render between rest <;> rfl

/-- A part that lacks no variable is written in front of the rest. -/
theorem EndsAs.cons {limit k : Nat} {omitted between : Bool} {p : Part Slot} {rest : List (Part Slot)}
    {pieces : List String} (hwrites : List.Forall₂ w.WritesPart (p.keptBelow limit k) pieces)
    (hrender : w.renderPart omitted p = .ok (String.join pieces, between))
    (hmissing : w.missing? (p :: rest) = w.missing? rest)
    (hbetween : between = (omitted || p.optionals.any fun inner => (w.missing? inner).isSome))
    (h : w.EndsAs limit (k + p.optionals.length) between rest) : w.EndsAs limit k omitted (p :: rest) := by
  unfold EndsAs at h ⊢
  rw [hmissing]
  split at h
  · rw [render_cons hrender, h]
    rfl
  · obtain ⟨later, hlater, hrest⟩ := h
    refine ⟨pieces ++ later, ?_, ?_⟩
    · rw [rowBelow]
      exact List.rel_append hwrites hlater
    · rw [render_cons hrender, hrest, String.join_append, optionalsOf, List.any_append, ← Bool.or_assoc,
        ← hbetween]
      rfl

/-- Rendering writes the row without what is left out, if its own variables are bound. -/
theorem render_spec {limit k : Nat} {omitted : Bool} {parts : List (Part Slot)}
    (h : w.Numbered limit omitted k (optionalsOf parts)) : w.EndsAs limit k omitted parts := by
  induction parts using Part.rows_induction generalizing k omitted with
  | nil => exact ⟨[], .nil, by simp [render, optionalsOf]⟩
  | delimiter rest ih =>
    exact .cons (.cons .delimiter .nil) (by simp [renderPart]) rfl (Bool.or_false _).symm (ih h)
  | text s rest ih =>
    exact .cons (.cons (.text s) .nil) (by simp [renderPart]) rfl (Bool.or_false _).symm (ih h)
  | var slot rest ih =>
    cases hvalue : w.lookup slot.name with
    | none =>
      have hmissing : w.missing? (.var slot :: rest) = some slot.name := by
        rw [missing?_var, hvalue]
        rfl
      unfold EndsAs
      rw [hmissing]
      simp [render, renderPart, hvalue]
    | some value =>
      refine .cons (.cons (.var hvalue) .nil) (by simp [renderPart, hvalue]) ?_ (Bool.or_false _).symm (ih h)
      rw [missing?_var, hvalue]
      rfl
  | optional inner rest ihinner ih =>
    obtain ⟨⟨hk, hinner⟩, hrest⟩ := numbered_append_iff.mp h
    by_cases hwritten : omitted = false ∧ w.missing? inner = none
    · obtain ⟨rfl, hbound⟩ := hwritten
      have hends := ihinner hinner
      unfold EndsAs at hends
      rw [hbound] at hends
      obtain ⟨pieces, hpieces, hrender⟩ := hends
      have hbetween : (Part.optional inner).optionals.any (fun inner => (w.missing? inner).isSome)
          = (optionalsOf inner).any fun inner => (w.missing? inner).isSome := by
        simp [Part.optionals, hbound]
      have hbelow : (Part.optional inner).keptBelow limit k = rowBelow limit (k + 1) inner := by
        rw [Part.keptBelow, if_pos (hk.mpr ⟨rfl, hbound⟩)]
      refine .cons (hbelow ▸ hpieces) ?_ rfl rfl (ih hrest)
      rw [renderPart, canRender_iff.mpr hbound, hbetween]
      exact hrender
    · -- The part is left out, and so are all later ones.
      have hcan : (omitted || !w.canRender inner) = true := by
        rw [← Bool.not_eq_false, Bool.or_eq_false_iff, Bool.not_eq_false', canRender_iff]
        exact hwritten
      have homitted : (omitted || (Part.optional inner).optionals.any
          fun inner => (w.missing? inner).isSome) = true := by
        rw [← Bool.not_eq_false, Bool.or_eq_false_iff, List.any_eq_false]
        exact fun h => hwritten ⟨h.1, by simpa using h.2 inner List.mem_cons_self⟩
      have hpart : List.Forall₂ w.WritesPart ((Part.optional inner).keptBelow limit k) [] := by
        rw [Part.keptBelow, if_neg (mt hk.mp hwritten)]
        exact .nil
      refine .cons hpart ?_ rfl rfl (ih hrest)
      rw [renderPart, if_pos hcan, homitted]
      rfl

/-- A text is written for a row if the variables of the row itself are bound. -/
theorem text_spec (w : Renderer) (parts : List (Part Slot)) :
    match w.missing? parts with
    | some name => w.text parts = .error name
    | none => ∃ text, w.text parts = .ok text ∧ w.Writes parts text := by
  have hends := render_spec (w.numbered_limit parts)
  unfold EndsAs at hends
  rw [text]
  split at hends
  · rw [hends]
    rfl
  · obtain ⟨pieces, hpieces, hrender⟩ := hends
    rw [hrender]
    exact ⟨_, rfl, pieces, hpieces, rfl⟩

theorem writes_of_text {parts : List (Part Slot)} {text : String} (h : w.text parts = .ok text) :
    w.Writes parts text := by
  have hspec := w.text_spec parts
  split at hspec
  · rw [h] at hspec
    cases hspec
  · obtain ⟨text', htext', hwrites⟩ := hspec
    rw [h] at htext'
    cases htext'
    exact hwrites

theorem WritesPart.unique {p : Part Slot} {piece piece' : String} (h : w.WritesPart p piece)
    (h' : w.WritesPart p piece') : piece = piece' := by
  cases h with
  | delimiter =>
    cases h'
    rfl
  | text s =>
    cases h'
    rfl
  | var hvalue =>
    cases h' with
    | var hvalue' =>
      rw [hvalue] at hvalue'
      cases hvalue'
      rfl

theorem Writes.unique {parts : List (Part Slot)} {text text' : String} (h : w.Writes parts text)
    (h' : w.Writes parts text') : text = text' := by
  obtain ⟨pieces, hpieces, rfl⟩ := h
  obtain ⟨pieces', hpieces', rfl⟩ := h'
  rw [List.right_unique_forall₂' (fun _ _ _ h h' => h.unique h') hpieces hpieces']

end

end Renderer

/-! ## URIs -/

namespace Template

/-- The first variable outside all optional parts that is not bound, in the path and then in the host. -/
def missing? (t : Template) (bindings : List (String × String)) : Option String :=
  (ownNames t.path ++ (t.host?.map ownNames).getD []).find? fun name => (bindings.lookup name).isNone

/-- A path with a slash if it would be empty. -/
def rooted (path : String) : String := if path = "" then "/" else path

/-- What the URI of a template is made of. -/
def IsUri (t : Template) (httpsOnly : Bool) (bindings : List (String × String)) (uri : String) : Prop :=
  ∃ path, (pathWriter bindings).Writes t.path path ∧
    match t.host? with
    | none => uri = rooted path
    | some parts => ∃ host, (hostWriter bindings).Writes parts host ∧
        uri = (if httpsOnly then "https" else "http") ++ "://" ++ host ++ rooted path

variable {t : Template} {httpsOnly : Bool} {bindings : List (String × String)}

theorem IsUri.unique {uri uri' : String} (h : t.IsUri httpsOnly bindings uri)
    (h' : t.IsUri httpsOnly bindings uri') : uri = uri' := by
  obtain ⟨path, hpath, huri⟩ := h
  obtain ⟨path', hpath', huri'⟩ := h'
  obtain rfl := hpath.unique hpath'
  cases hhost : t.host? with
  | none =>
    rw [hhost] at huri huri'
    exact huri.trans huri'.symm
  | some parts =>
    rw [hhost] at huri huri'
    obtain ⟨host, hwrites, rfl⟩ := huri
    obtain ⟨host', hwrites', rfl⟩ := huri'
    rw [hwrites.unique hwrites']

theorem uri_eq : t.uri httpsOnly bindings = (do
    let path ← (pathWriter bindings).text t.path
    match t.host? with
    | none => return rooted path
    | some parts =>
      let host ← (hostWriter bindings).text parts
      return (if httpsOnly then "https" else "http") ++ "://" ++ host ++ rooted path) := rfl

theorem missing?_eq : t.missing? bindings
    = ((pathWriter bindings).missing? t.path).or (t.host?.bind (hostWriter bindings).missing?) := by
  rw [missing?, List.find?_append]
  cases t.host? <;> rfl

/-- A template makes a URI if the variables outside its optional parts are bound. -/
theorem uri_spec (t : Template) (httpsOnly : Bool) (bindings : List (String × String)) :
    match t.missing? bindings with
    | some name => t.uri httpsOnly bindings = .error name
    | none => ∃ uri, t.uri httpsOnly bindings = .ok uri ∧ t.IsUri httpsOnly bindings uri := by
  have hpath := (pathWriter bindings).text_spec t.path
  rw [missing?_eq, uri_eq]
  unfold IsUri
  cases hlacks : (pathWriter bindings).missing? t.path with
  | some name =>
    rw [hlacks] at hpath
    dsimp only at hpath
    rw [hpath]
    rfl
  | none =>
    rw [hlacks] at hpath
    obtain ⟨path, hpath, hwrites⟩ := hpath
    rw [hpath]
    cases t.host? with
    | none => exact ⟨_, rfl, path, hwrites, rfl⟩
    | some parts =>
      have hhost := (hostWriter bindings).text_spec parts
      rw [Option.none_or, Option.bind_some]
      cases hlacks : (hostWriter bindings).missing? parts with
      | some name =>
        rw [hlacks] at hhost
        dsimp only at hhost ⊢
        rw [hhost]
        rfl
      | none =>
        rw [hlacks] at hhost
        obtain ⟨host, hhost, hwritesHost⟩ := hhost
        dsimp only
        rw [hhost]
        exact ⟨_, rfl, path, hwrites, host, hwritesHost, rfl⟩

end Template

namespace Router

variable {α : Type}

/-- What the URI of a name is: an error if no route has the name or lacks a variable, or what its
template is made of. -/
theorem Reachable.uriFor_spec {r : Router α} (h : Reachable r) (name : String)
    (bindings : List (String × String)) :
    (r.uriFor name bindings = .error (.unknownRoute name) ↔ ∀ e ∈ r.entries, e.route.name? ≠ some name) ∧
      ∀ e ∈ r.entries, e.route.name? = some name →
        Template.ofString e.route.template.source = .ok e.template ∧
        (∀ error, r.uriFor name bindings = .error error ↔
          ∃ v, e.template.missing? bindings = some v ∧ error = .missingVariable name v) ∧
        ∀ uri, r.uriFor name bindings = .ok uri ↔
          e.template.missing? bindings = none ∧ e.template.IsUri e.route.template.httpsOnly bindings uri := by
  refine ⟨?_, fun e he hname => ?_⟩
  · constructor
    · intro hunknown e he hname
      have hnamed := h.namesKept.named?_iff.mpr ⟨he, hname⟩
      rw [h.sound.uriFor_eq hnamed] at hunknown
      cases huri : e.template.uri e.route.template.httpsOnly bindings with
      | error v =>
        rw [huri] at hunknown
        cases hunknown
      | ok uri =>
        rw [huri] at hunknown
        cases hunknown
    · intro hnone
      have hnamed : r.named? name = none := by
        refine Option.eq_none_iff_forall_ne_some.mpr fun e hnamed => ?_
        obtain ⟨he, hname⟩ := h.namesKept.named?_iff.mp hnamed
        exact hnone e he hname
      rw [uriFor, hnamed]
  · rw [h.sound.uriFor_eq (h.namesKept.named?_iff.mpr ⟨he, hname⟩)]
    refine ⟨h.sound.reads e he, ?_⟩
    have hspec := e.template.uri_spec e.route.template.httpsOnly bindings
    cases hmissing : e.template.missing? bindings with
    | some v =>
      rw [hmissing] at hspec
      dsimp only at hspec
      rw [hspec]
      refine ⟨fun error => ⟨?_, ?_⟩, fun uri => ⟨nofun, nofun⟩⟩
      · rintro ⟨⟩
        exact ⟨v, rfl, rfl⟩
      · rintro ⟨_, ⟨⟩, rfl⟩
        rfl
    | none =>
      rw [hmissing] at hspec
      obtain ⟨uri, hmade, huri⟩ := hspec
      rw [hmade]
      refine ⟨fun error => ⟨nofun, nofun⟩, fun uri' => ⟨?_, ?_⟩⟩
      · rintro ⟨⟩
        exact ⟨rfl, huri⟩
      · rintro ⟨-, huri'⟩
        rw [huri.unique huri']
        rfl

def nested : Router String := lone "[:tenant.]a.org" "/items[/:id[/all[/:part]]][/end]"

/-- Without its part the end is left out too, but not the tenant in the host. -/
theorem uriFor_spec_nested : Reachable nested ∧ ∃ e ∈ nested.entries, e.route.name? = some "lone" ∧
    e.template.missing? [("id", "7"), ("tenant", "acme")] = none ∧
    nested.uriFor "lone" [("id", "7"), ("tenant", "acme")] = .ok "http://acme.a.org/items/7/all" ∧
    e.template.IsUri e.route.template.httpsOnly [("id", "7"), ("tenant", "acme")]
      "http://acme.a.org/items/7/all" := by
  have hruns : nested.entries.any (fun e => e.route.name? = some "lone") = true ∧
      nested.uriFor "lone" [("id", "7"), ("tenant", "acme")] = .ok "http://acme.a.org/items/7/all" := by
    decide +kernel
  obtain ⟨e, he, hname⟩ := List.any_eq_true.mp hruns.1
  have hreachable : Reachable nested := lone_reachable _ _
  obtain ⟨-, -, huris⟩ := (hreachable.uriFor_spec "lone" [("id", "7"), ("tenant", "acme")]).2 e he
    (of_decide_eq_true hname)
  obtain ⟨hmissing, huri⟩ := (huris _).mp hruns.2
  exact ⟨hreachable, e, he, of_decide_eq_true hname, hmissing, hruns.2, huri⟩

end Router

end UriRouting
