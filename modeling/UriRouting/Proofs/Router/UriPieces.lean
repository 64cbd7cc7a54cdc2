import UriRouting.Proofs.Router.Encoding
import UriRouting.Proofs.Router.Uris
/-!
Values do not change the structure of a path.

What is written for a path depends on the values that are bound, but which parts are written depends on
the names alone, and no value brings a slash with it. So the paths for two bindings of the same names fall
into the same pieces: `PathsAlike`. Only a path that would be empty does not, as it becomes a slash:
`Router.Reachable.uri_structure`, `Router.uri_structure_lost`.
-/

namespace UriRouting

open Text

/-! ## Pieces of a row -/

/-- A row cut at its delimiters. -/
def cutRow : List (Part Slot) → List (List (Part Slot))
  | [] => [[]]
  | .delimiter :: rest => [] :: cutRow rest
  | p :: rest =>
    match cutRow rest with
    | [] => [[p]]
    | piece :: pieces => (p :: piece) :: pieces

theorem cutRow_ne_nil (row : List (Part Slot)) : cutRow row ≠ [] := by
  unfold cutRow
  split
  · exact List.cons_ne_nil _ _
  · exact List.cons_ne_nil _ _
  · split <;> exact List.cons_ne_nil _ _

theorem ownNames_cutRow (row : List (Part Slot)) : (cutRow row).flatMap ownNames = ownNames row := by
  induction row with
  | nil => rfl
  | cons p row ih =>
    obtain ⟨piece, pieces, hcut⟩ := List.exists_cons_of_ne_nil (cutRow_ne_nil row)
    rw [hcut] at ih
    have hcons : ownNames (p :: row) = p.name?.toList ++ ownNames row := by
      cases p <;> rfl
    rw [hcons, ← ih]
    cases p with
    | delimiter =>
      rw [cutRow, hcut]
      rfl
    | _ =>
      rw [cutRow, hcut]
      · rfl
      · exact nofun

/-- A piece that is a variable alone or holds none. -/
def Unmixed (piece : List (Part Slot)) : Prop := ownNames piece = [] ∨ ∃ slot, piece = [.var slot]

namespace Renderer

variable {w w' : Renderer}

/-- What is written for a piece. -/
def WritesPiece (w : Renderer) (piece : List (Part Slot)) (cs : List Char) : Prop :=
  ∃ texts, List.Forall₂ w.WritesPart piece texts ∧ cs = (String.join texts).toList

/-- A text that is written falls into pieces where its row does. -/
theorem writes_cutRow {row : List (Part Slot)} {texts : List String}
    (h : List.Forall₂ w.WritesPart row texts)
    (hclosed : ∀ p ∈ row, p ≠ .delimiter → ∀ text, w.WritesPart p text → w.side.delimiter ∉ text.toList) :
    List.Forall₂ w.WritesPiece (cutRow row) (splitAt w.side.delimiter (String.join texts).toList) := by
  induction h with
  | nil => exact .cons ⟨[], .nil, rfl⟩ .nil
  | @cons p text row texts hp hrow ih =>
    have ih := ih fun q hq => hclosed q (List.mem_cons_of_mem p hq)
    rw [String.join_cons, String.toList_append]
    by_cases hdelimiter : p = .delimiter
    · subst hdelimiter
      cases hp
      rw [String.toList_singleton, List.singleton_append, splitAt, if_pos rfl]
      exact .cons ⟨[], .nil, rfl⟩ ih
    · have hfree := hclosed p List.mem_cons_self hdelimiter text hp
      obtain ⟨piece, pieces, hcut⟩ := List.exists_cons_of_ne_nil (cutRow_ne_nil row)
      have hcons : cutRow (p :: row) = (p :: piece) :: pieces := by
        rw [cutRow, hcut]
        exact hdelimiter
      rw [hcut] at ih
      obtain ⟨cs, rest, ⟨inner, hinner, rfl⟩, hrest, hsplit⟩ := List.forall₂_cons_left_iff.mp ih
      rw [hcons, splitAt_append hfree hsplit]
      refine .cons ⟨text :: inner, .cons hp hinner, ?_⟩ hrest
      rw [String.join_cons, String.toList_append]

end Renderer

/-- Two paths are alike, piece by piece: what holds no variable is the same, and what is a variable alone
decodes to its values. -/
inductive PathsAlike (value? value'? : String → Option String) :
    List (List (Part Slot)) → List (List Char) → List (List Char) → Prop
  | nil : PathsAlike value? value'? [] [] []
  | cons {piece : List (Part Slot)} {pieces : List (List (Part Slot))} {cs cs' : List Char}
    {rest rest' : List (List Char)} (fixed : ownNames piece = [] → cs = cs')
    (single : ∀ slot, piece = [.var slot] → (value? slot.name).isSome = true ∧
      (value'? slot.name).isSome = true ∧ percentDecode (String.ofList cs) = value? slot.name ∧
      percentDecode (String.ofList cs') = value'? slot.name)
    (tail : PathsAlike value? value'? pieces rest rest') :
    PathsAlike value? value'? (piece :: pieces) (cs :: rest) (cs' :: rest')

namespace PathsAlike

variable {value? value'? : String → Option String} {pieces : List (List (Part Slot))}
  {paths paths' : List (List Char)}

theorem length_eq (h : PathsAlike value? value'? pieces paths paths') :
    paths.length = pieces.length ∧ paths'.length = pieces.length := by
  induction h with
  | nil => exact ⟨rfl, rfl⟩
  | cons _ _ _ ih => exact ⟨congrArg (· + 1) ih.1, congrArg (· + 1) ih.2⟩

/-- The same path stands for the same values, if no piece is mixed. -/
theorem values_eq (h : PathsAlike value? value'? pieces paths paths') (hsame : paths = paths')
    (hunmixed : ∀ piece ∈ pieces, Unmixed piece) :
    ∀ piece ∈ pieces, ∀ name ∈ ownNames piece, value? name = value'? name := by
  induction h with
  | nil => exact fun piece hpiece => absurd hpiece List.not_mem_nil
  | cons _ single _ ih =>
    obtain ⟨rfl, hrest⟩ := List.cons.inj hsame
    obtain ⟨hpiece, hpieces⟩ := List.forall_mem_cons.mp hunmixed
    refine List.forall_mem_cons.mpr ⟨fun name hname => ?_, ih hrest hpieces⟩
    rcases hpiece with hnone | ⟨slot, rfl⟩
    · rw [hnone] at hname
      cases hname
    · obtain ⟨-, -, hvalue, hvalue'⟩ := single slot rfl
      rw [List.mem_singleton.mp hname]
      exact hvalue.symm.trans hvalue'

end PathsAlike

/-! ## Paths -/

namespace Template

variable {bindings bindings' : List (String × String)}

theorem writesPart_fixed {p : Part Slot} {text text' : String} (hp : p.name? = none)
    (h : (pathWriter bindings).WritesPart p text) (h' : (pathWriter bindings').WritesPart p text') :
    text = text' := by
  cases h with
  | delimiter =>
    cases h'
    rfl
  | text s =>
    cases h'
    rfl
  | var hvalue => cases hp

theorem writes_fixed {row : List (Part Slot)} {texts texts' : List String}
    (h : List.Forall₂ (pathWriter bindings).WritesPart row texts)
    (h' : List.Forall₂ (pathWriter bindings').WritesPart row texts') (hrow : ∀ p ∈ row, p.name? = none) :
    texts = texts' := by
  induction h generalizing texts' with
  | nil =>
    cases h'
    rfl
  | cons hp _ ih =>
    cases h' with
    | cons hp' hrest' =>
      obtain ⟨hname, hrow⟩ := List.forall_mem_cons.mp hrow
      rw [writesPart_fixed hname hp hp', ih hrest' hrow]

theorem writesPiece_fixed {piece : List (Part Slot)} {cs cs' : List Char} (hpiece : ownNames piece = [])
    (h : (pathWriter bindings).WritesPiece piece cs) (h' : (pathWriter bindings').WritesPiece piece cs') :
    cs = cs' := by
  obtain ⟨texts, htexts, rfl⟩ := h
  obtain ⟨texts', htexts', rfl⟩ := h'
  rw [writes_fixed htexts htexts' (List.filterMap_eq_nil_iff.mp hpiece)]

/-- What is written for a variable alone decodes to its value. -/
theorem decode_writesPiece {slot : Slot} {cs : List Char}
    (h : (pathWriter bindings).WritesPiece [.var slot] cs) :
    (bindings.lookup slot.name).isSome = true ∧
      percentDecode (String.ofList cs) = bindings.lookup slot.name := by
  obtain ⟨texts, htexts, rfl⟩ := h
  cases htexts with
  | cons hp hnil =>
    cases hnil
    cases hp with
    | @var _ value hvalue =>
      have hbound : bindings.lookup slot.name = some value := hvalue
      have hencode : (pathWriter bindings).encode value = percentEncode value := rfl
      rw [hbound, String.join_cons, String.join_nil, String.append_empty, String.ofList_toList, hencode,
        percentDecode_percentEncode]
      exact ⟨rfl, rfl⟩

theorem pathsAlike_of_writes {pieces : List (List (Part Slot))} {paths paths' : List (List Char)}
    (h : List.Forall₂ (pathWriter bindings).WritesPiece pieces paths)
    (h' : List.Forall₂ (pathWriter bindings').WritesPiece pieces paths') :
    PathsAlike (fun name => bindings.lookup name) (fun name => bindings'.lookup name) pieces paths paths' := by
  induction h generalizing paths' with
  | nil =>
    cases h'
    exact .nil
  | cons hpiece _ ih =>
    cases h' with
    | cons hpiece' hrest' =>
      refine .cons (fun hnone => writesPiece_fixed hnone hpiece hpiece') ?_ (ih hrest')
      rintro slot rfl
      obtain ⟨hbound, hdecode⟩ := decode_writesPiece hpiece
      obtain ⟨hbound', hdecode'⟩ := decode_writesPiece hpiece'
      exact ⟨hbound, hbound', hdecode, hdecode'⟩

/-- The row that is written for the path of a template. -/
def writtenPath (t : Template) (bindings : List (String × String)) : List (Part Slot) :=
  rowBelow ((pathWriter bindings).limit t.path) 0 t.path

/-- Bindings of the same names. -/
def SameNames (bindings bindings' : List (String × String)) : Prop :=
  ∀ name, (bindings.lookup name).isSome = (bindings'.lookup name).isSome

theorem sameNames_single (name value value' : String) : SameNames [(name, value)] [(name, value')] := by
  intro other
  rw [List.lookup_cons, List.lookup_cons]
  cases other == name <;> rfl

section

variable (h : SameNames bindings bindings')

include h

theorem isNone_lookup_congr (name : String) :
    (bindings.lookup name).isNone = (bindings'.lookup name).isNone := by
  rw [← Option.not_isSome, ← Option.not_isSome, h]

theorem writtenPath_congr (t : Template) : t.writtenPath bindings = t.writtenPath bindings' := by
  have hlookup : ∀ name, ((pathWriter bindings).lookup name).isNone
      = ((pathWriter bindings').lookup name).isNone := isNone_lookup_congr h
  simp only [writtenPath, Renderer.limit, Renderer.missing?, hlookup]

theorem missing?_congr (t : Template) : t.missing? bindings = t.missing? bindings' := by
  simp only [missing?, isNone_lookup_congr h]

end

theorem mem_texts_of_rowBelow {limit k : Nat} {parts : List (Part Slot)} {s : String}
    (h : .text s ∈ rowBelow limit k parts) : s ∈ Part.texts parts := by
  induction parts using Part.rows_induction generalizing k with
  | nil => cases h
  | delimiter rest ih =>
    rcases List.mem_append.mp h with h | h
    · cases List.mem_singleton.mp h
    · exact List.mem_append_right _ (ih h)
  | text s' rest ih =>
    rcases List.mem_append.mp h with h | h
    · cases List.mem_singleton.mp h
      exact List.mem_append_left _ List.mem_cons_self
    · exact List.mem_append_right _ (ih h)
  | var slot rest ih =>
    rcases List.mem_append.mp h with h | h
    · cases List.mem_singleton.mp h
    · exact List.mem_append_right _ (ih h)
  | optional inner rest ihinner ih =>
    rcases List.mem_append.mp h with h | h
    · rw [Part.keptBelow] at h
      split at h
      · exact List.mem_append_left _ (ihinner h)
      · cases h
    · exact List.mem_append_right _ (ih h)

/-- The path that is written falls into the pieces of its row. -/
theorem path_pieces {t : Template} (htexts : t.TextsInOrder) {text : String}
    (h : (pathWriter bindings).Writes t.path text) :
    List.Forall₂ (pathWriter bindings).WritesPiece (cutRow (t.writtenPath bindings))
      (splitAt '/' text.toList) := by
  obtain ⟨texts, hwrites, rfl⟩ := h
  refine Renderer.writes_cutRow hwrites fun p hp hdelimiter text htext => ?_
  cases htext with
  | delimiter => exact absurd rfl hdelimiter
  | text => exact fun hslash => (htexts.1 _ (mem_texts_of_rowBelow hp)).2 '/' hslash List.mem_cons_self
  | var hvalue => exact slash_not_mem_percentEncode _

/-- A path that begins with its slash is not empty. -/
theorem path_ne_empty {t : Template} (ht : t.path.head? = some .delimiter) {text : String}
    (h : (pathWriter bindings).Writes t.path text) : text ≠ "" := by
  obtain ⟨rest, hpath⟩ := List.head?_eq_some_iff.mp ht
  obtain ⟨texts, hwrites, rfl⟩ := h
  rw [hpath] at hwrites
  cases hwrites with
  | cons hfirst _ =>
    cases hfirst
    rw [String.join_cons]
    exact fun hempty => String.singleton_ne_empty (String.append_eq_empty_iff.mp hempty).1

/-- Paths with the same number of pieces stay different with a slash in place of the empty one. -/
theorem rooted_injective {text text' : String}
    (hlength : (splitAt '/' text.toList).length = (splitAt '/' text'.toList).length)
    (h : rooted text = rooted text') : text = text' := by
  unfold rooted at h
  split at h
  · next htext =>
    subst htext
    split at h
    · next htext' => exact htext'.symm
    · subst h
      cases hlength
  · split at h
    · next htext' =>
      subst htext'
      subst h
      cases hlength
    · exact h

end Template

/-! ## URIs of two bindings -/

namespace Router

variable {α : Type}

/-- What is rendered for the path of a URI. With a host the URI is longer. -/
structure RendersPath (r : Router α) (name : String) (e : Entry α) (bindings : List (String × String))
    (text : String) : Prop where
  rendered : (Template.pathWriter bindings).text e.template.path = .ok text
  uri : ∃ front, r.uriFor name bindings = .ok (front ++ Template.rooted text) ∧
    (e.template.host? = none → front = "")

theorem rendersPath_of_ok {r : Router α} {name : String} {e : Entry α} {bindings : List (String × String)}
    {uri : String} (hmade : e.template.uri e.route.template.httpsOnly bindings = .ok uri)
    (huri : r.uriFor name bindings = .ok uri) : ∃ text, r.RendersPath name e bindings text := by
  obtain ⟨text, htext, hparts⟩ := Template.uri_ok hmade
  refine ⟨text, htext, ?_⟩
  rcases hparts with ⟨-, rfl⟩ | ⟨parts, host, hhost, -, rfl⟩
  · exact ⟨"", by rw [huri, String.empty_append]; rfl, fun _ => rfl⟩
  · refine ⟨_, huri, fun hnone => ?_⟩
    rw [hhost] at hnone
    cases hnone

/-- The paths of the URIs for two bindings of the same names are alike before a slash takes the place of an
empty one. If a variable is never next to anything else in its piece, they are different if its values are. -/
theorem Reachable.uri_structure {r : Router α} (h : Reachable r) {name : String}
    {bindings bindings' : List (String × String)} (hsame : Template.SameNames bindings bindings')
    {e : Entry α} (he : e ∈ r.entries) (hname : e.route.name? = some name) :
    (∃ error, r.uriFor name bindings = .error error ∧ r.uriFor name bindings' = .error error) ∨
      ∃ text text', r.RendersPath name e bindings text ∧ r.RendersPath name e bindings' text' ∧
        (splitAt '/' text.toList).length = (splitAt '/' text'.toList).length ∧
        PathsAlike (fun name => bindings.lookup name) (fun name => bindings'.lookup name)
          (cutRow (e.template.writtenPath bindings)) (splitAt '/' text.toList) (splitAt '/' text'.toList) ∧
        (e.template.path.head? = some .delimiter → Template.rooted text = text ∧
          Template.rooted text' = text') ∧
        ((∀ piece ∈ cutRow (e.template.writtenPath bindings), Unmixed piece) →
          Template.rooted text = Template.rooted text' →
          ∀ v ∈ ownNames (e.template.writtenPath bindings), bindings.lookup v = bindings'.lookup v) := by
  have hreads := h.sound.reads e he
  have hspec := e.template.uri_spec e.route.template.httpsOnly bindings
  have hspec' := e.template.uri_spec e.route.template.httpsOnly bindings'
  have huri : ∀ bindings, r.uriFor name bindings
      = (e.template.uri e.route.template.httpsOnly bindings).mapError (.missingVariable name) :=
    h.sound.uriFor_eq (h.namesKept.named?_iff.mpr ⟨he, hname⟩)
  rw [← Template.missing?_congr hsame] at hspec'
  cases hmissing : e.template.missing? bindings with
  | some v =>
    left
    rw [hmissing] at hspec hspec'
    dsimp only at hspec hspec'
    rw [huri, huri, hspec, hspec']
    exact ⟨_, rfl, rfl⟩
  | none =>
    right
    rw [hmissing] at hspec hspec'
    obtain ⟨uri, hmade, -⟩ := hspec
    obtain ⟨uri', hmade', -⟩ := hspec'
    obtain ⟨text, hpath⟩ := rendersPath_of_ok hmade (by rw [huri, hmade]; rfl)
    obtain ⟨text', hpath'⟩ := rendersPath_of_ok hmade' (by rw [huri, hmade']; rfl)
    have hwrites := Renderer.writes_of_text hpath.rendered
    have hwrites' := Renderer.writes_of_text hpath'.rendered
    have hpieces := Template.path_pieces (ofString_texts hreads) hwrites
    have hpieces' := Template.path_pieces (ofString_texts hreads) hwrites'
    rw [← Template.writtenPath_congr hsame] at hpieces'
    have halike := Template.pathsAlike_of_writes hpieces hpieces'
    have hlength := halike.length_eq.1.trans halike.length_eq.2.symm
    refine ⟨text, text', hpath, hpath', hlength, halike, fun hslash => ?_, fun hunmixed hrooted v hv => ?_⟩
    · exact ⟨if_neg (Template.path_ne_empty hslash hwrites), if_neg (Template.path_ne_empty hslash hwrites')⟩
    · rw [← ownNames_cutRow] at hv
      obtain ⟨piece, hpiece, hv⟩ := List.mem_flatMap.mp hv
      have htext := Template.rooted_injective hlength hrooted
      exact halike.values_eq (by rw [htext]) hunmixed piece hpiece v hv

/-- A slash in a value makes no piece. -/
theorem uri_structure_nested : Reachable nested ∧ Template.SameNames [("id", "7")] [("id", "a/b")] ∧
    ∃ e ∈ nested.entries, e.route.name? = some "lone" ∧ ∃ text text',
      nested.RendersPath "lone" e [("id", "7")] text ∧ nested.RendersPath "lone" e [("id", "a/b")] text' ∧
      (splitAt '/' text.toList).length = (splitAt '/' text'.toList).length ∧
      text = "/items/7/all" ∧ text' = "/items/a%2Fb/all" := by
  have hruns : nested.entries.any (fun e => e.route.name? = some "lone" &&
      decide ((Template.pathWriter [("id", "7")]).text e.template.path = .ok "/items/7/all") &&
      decide ((Template.pathWriter [("id", "a/b")]).text e.template.path = .ok "/items/a%2Fb/all")) = true ∧
      (nested.uriFor "lone" [("id", "7")]).toBool = true := by
    decide +kernel
  obtain ⟨hruns, hmade⟩ := hruns
  obtain ⟨e, he, hruns⟩ := List.any_eq_true.mp hruns
  simp only [Bool.and_eq_true, decide_eq_true_eq] at hruns
  obtain ⟨⟨hname, htext⟩, htext'⟩ := hruns
  have hsame : Template.SameNames [("id", "7")] [("id", "a/b")] := Template.sameNames_single _ _ _
  have hreachable : Reachable nested := lone_reachable _ _
  refine ⟨hreachable, hsame, e, he, hname, ?_⟩
  rcases hreachable.uri_structure hsame he hname with ⟨error, herror, -⟩ | ⟨text, text', hpath, hpath', hlength, -⟩
  · rw [herror] at hmade
    cases hmade
  · refine ⟨text, text', hpath, hpath', hlength, ?_, ?_⟩
    · exact Except.ok.inj (hpath.rendered.symm.trans htext)
    · exact Except.ok.inj (hpath'.rendered.symm.trans htext')

/-- The structure of the paths of URIs is lost where one of them would be empty. -/
theorem uri_structure_lost : ¬ ∀ (r : Router String) (name : String)
    (bindings bindings' : List (String × String)) (path path' : String), Reachable r →
    (∀ e ∈ r.entries, e.route.name? = some name → e.template.host? = none) →
    Template.SameNames bindings bindings' → r.uriFor name bindings = .ok path →
    r.uriFor name bindings' = .ok path' →
    (splitAt '/' path.toList).length = (splitAt '/' path'.toList).length := by
  intro h
  have hruns : (lone "[" "/:a/]:b").uriFor "lone" [("b", "")] = .ok "/" ∧
      (lone "[" "/:a/]:b").uriFor "lone" [("b", "x")] = .ok "x" ∧
      (lone "[" "/:a/]:b").entries.all (fun e => e.template.host?.isNone) = true := by
    decide +kernel
  obtain ⟨hempty, hfull, hhosts⟩ := hruns
  have hsame : Template.SameNames [("b", "")] [("b", "x")] := Template.sameNames_single _ _ _
  have hlength := h (lone "[" "/:a/]:b") "lone" [("b", "")] [("b", "x")] "/" "x" (lone_reachable _ _)
    (fun e he _ => Option.isNone_iff_eq_none.mp (List.all_eq_true.mp hhosts e he)) hsame hempty hfull
  exact absurd hlength (by decide)

end Router

end UriRouting
