import UriRouting.Proofs.Router.Candidates
import UriRouting.Proofs.Text.Pieces
import UriRouting.Proofs.Trie.Fits
import UriRouting.Router.Uri
/-!
What is written for a template is taken by its keys.

Writing and compiling read the same parts, but not in the same way: the one leaves optional parts out
or writes them with their delimiters, the other drops or keeps them and then cuts at the delimiters.
`Writes` joins the two. The optional parts that are written are kept in some form, and the text that
is written for the form falls into pieces, one for each of its keys.
-/

namespace UriRouting

open Text

/-! ## Slots that are filled -/

namespace Renderer

mutual

/-- The slots of a part that are filled, and whether an optional part has been left out. -/
def filledPart (w : Renderer) (omitted : Bool) : Part Slot → List Slot × Bool
  | .delimiter | .text _ => ([], omitted)
  | .var slot => ([slot], omitted)
  | .optional parts => if omitted || !w.canRender parts then ([], true) else w.filled omitted parts

def filled (w : Renderer) (omitted : Bool) : List (Part Slot) → List Slot × Bool
  | [] => ([], omitted)
  | p :: rest =>
    let (here, omitted) := w.filledPart omitted p
    let (later, omitted) := w.filled omitted rest
    (here ++ later, omitted)

end

theorem render_cons_ok {w : Renderer} {omitted omitted' : Bool} {p : Part Slot} {rest : List (Part Slot)}
    {text : String} (h : w.render omitted (p :: rest) = .ok (text, omitted')) :
    ∃ here between later, w.renderPart omitted p = .ok (here, between) ∧
      w.render between rest = .ok (later, omitted') ∧ text = here ++ later := by
  rw [render] at h
  cases hp : w.renderPart omitted p with
  | error e =>
    rw [hp] at h
    cases h
  | ok head =>
    obtain ⟨here, between⟩ := head
    rw [hp] at h
    dsimp only at h
    cases hrest : w.render between rest with
    | error e =>
      rw [hrest] at h
      cases h
    | ok tail =>
      obtain ⟨later, omitted⟩ := tail
      rw [hrest] at h
      cases h
      exact ⟨here, between, later, rfl, hrest, rfl⟩

theorem text_ok {w : Renderer} {parts : List (Part Slot)} {text : String}
    (h : w.text parts = .ok text) : ∃ omitted, w.render false parts = .ok (text, omitted) := by
  unfold Renderer.text at h
  cases hparts : w.render false parts with
  | error e =>
    rw [hparts] at h
    cases h
  | ok rendered =>
    rw [hparts] at h
    cases h
    exact ⟨rendered.2, rfl⟩

end Renderer

/-! ## Text of forms -/

/-- What is written for a part of a key, if `takes` says what variables are filled with. -/
inductive SegmentPart.Writes (takes : Variable → String → Prop) : SegmentPart → List Char → Prop
  | literal (s : String) : Writes takes (.literal s) s.toList
  | var {v : Variable} {value : String} (h : takes v value) : Writes takes (.var v) value.toList

/-- What is written for a segment. -/
inductive SegmentWrites (takes : Variable → String → Prop) : List SegmentPart → List Char → Prop
  | nil : SegmentWrites takes [] []
  | cons {p : SegmentPart} {rest : List SegmentPart} {here later : List Char}
    (head : p.Writes takes here) (tail : SegmentWrites takes rest later) :
    SegmentWrites takes (p :: rest) (here ++ later)

/-- What is written for a form. -/
inductive Side.Writes (side : Side) (takes : Variable → String → Prop) :
    List FormPiece → List Char → Prop
  | nil : Writes side takes [] []
  | delimiter {form : List FormPiece} {cs : List Char} (h : Writes side takes form cs) :
    Writes side takes (.delimiter :: form) (side.delimiter :: cs)
  | part {p : SegmentPart} {form : List FormPiece} {here cs : List Char} (head : p.Writes takes here)
    (h : Writes side takes form cs) : Writes side takes (.part p :: form) (here ++ cs)

section

variable {side : Side} {takes : Variable → String → Prop}

theorem Side.Writes.append {front back : List FormPiece} {cs cs' : List Char}
    (h : side.Writes takes front cs) (h' : side.Writes takes back cs') :
    side.Writes takes (front ++ back) (cs ++ cs') := by
  induction h with
  | nil => exact h'
  | delimiter h ih => exact .delimiter ih
  | part head h ih =>
    rw [List.append_assoc]
    exact .part head ih

/-- The text that is written for a row of parts is the text of a form of the row. -/
theorem Renderer.render_writes {w : Renderer} {c : Compiler} {parts : List (Part Slot)}
    {forms count : Nat} {resolved : List (Part Variable)} {omitted omitted' : Bool} {text : String}
    (hresolve : c.resolve forms parts = .ok (resolved, count))
    (hrender : w.render omitted parts = .ok (text, omitted'))
    (hvalues : ∀ slot ∈ (w.filled omitted parts).1, ∀ v value, c.variableOf slot = .ok v →
      w.lookup slot.name = some value → takes v (w.encode value)) :
    (w.filled omitted parts).2 = omitted' ∧
      ∃ form, Kept resolved form ∧ w.side.Writes takes form text.toList := by
  induction parts using Part.rows_induction generalizing forms count resolved omitted omitted' text with
  | nil =>
    cases hresolve
    cases hrender
    exact ⟨rfl, _, .nil, .nil⟩
  | delimiter rest ih =>
    obtain ⟨p', n, rest', hp, hrest, rfl⟩ := Compiler.resolve_cons_ok hresolve
    obtain ⟨here, between, later, hhere, hlater, rfl⟩ := render_cons_ok hrender
    cases hp
    cases hhere
    obtain ⟨homitted, form, hform, hwrites⟩ := ih hrest hlater hvalues
    refine ⟨homitted, _, .delimiter hform, ?_⟩
    rw [String.toList_append, String.toList_singleton]
    exact .delimiter hwrites
  | text s rest ih =>
    obtain ⟨p', n, rest', hp, hrest, rfl⟩ := Compiler.resolve_cons_ok hresolve
    obtain ⟨here, between, later, hhere, hlater, rfl⟩ := render_cons_ok hrender
    cases hp
    cases hhere
    obtain ⟨homitted, form, hform, hwrites⟩ := ih hrest hlater hvalues
    refine ⟨homitted, _, .text s hform, ?_⟩
    rw [String.toList_append]
    exact .part (.literal s) hwrites
  | var slot rest ih =>
    obtain ⟨p', n, rest', hp, hrest, rfl⟩ := Compiler.resolve_cons_ok hresolve
    obtain ⟨here, between, later, hhere, hlater, rfl⟩ := render_cons_ok hrender
    rw [Compiler.resolvePart] at hp
    rw [renderPart] at hhere
    cases hslot : c.variableOf slot with
    | error e =>
      rw [hslot] at hp
      cases hp
    | ok v =>
      cases hlookup : w.lookup slot.name with
      | none =>
        rw [hlookup] at hhere
        cases hhere
      | some value =>
        rw [hslot] at hp
        rw [hlookup] at hhere
        cases hp
        cases hhere
        obtain ⟨homitted, form, hform, hwrites⟩ := ih hrest hlater fun slot hmem =>
          hvalues slot (List.mem_cons_of_mem _ hmem)
        refine ⟨homitted, _, .var v hform, ?_⟩
        rw [String.toList_append]
        exact .part (.var (hvalues slot List.mem_cons_self v value hslot hlookup)) hwrites
  | optional inner rest ihinner ih =>
    obtain ⟨p', n, rest', hp, hrest, rfl⟩ := Compiler.resolve_cons_ok hresolve
    obtain ⟨here, between, later, hhere, hlater, rfl⟩ := render_cons_ok hrender
    rw [Compiler.resolvePart] at hp
    rw [renderPart] at hhere
    rw [filled, filledPart] at hvalues ⊢
    cases hinner : c.resolve forms inner with
    | error e =>
      rw [hinner] at hp
      cases hp
    | ok inside =>
      obtain ⟨inner', longer⟩ := inside
      rw [hinner] at hp
      dsimp only at hp
      split at hp
      · cases hp
      · cases hp
        split at hhere
        · next homit =>
          cases hhere
          rw [if_pos homit] at hvalues ⊢
          obtain ⟨homitted, form, hform, hwrites⟩ := ih hrest hlater hvalues
          exact ⟨homitted, form, .drop inner' hform, by simpa using hwrites⟩
        · next homit =>
          rw [if_neg homit] at hvalues ⊢
          obtain ⟨hbetween, form, hform, hwrites⟩ := ihinner hinner hhere fun slot hmem =>
            hvalues slot (List.mem_append_left _ hmem)
          dsimp only at hvalues ⊢
          rw [hbetween] at hvalues ⊢
          obtain ⟨homitted, form', hform', hwrites'⟩ := ih hrest hlater fun slot hmem =>
            hvalues slot (List.mem_append_right _ hmem)
          refine ⟨homitted, _, .keep hform hform', ?_⟩
          rw [String.toList_append]
          exact hwrites.append hwrites'

/-! ## Pieces of the text -/

/-- What is written for each part of a form is not empty, and does not hold the delimiter. -/
def Solid (side : Side) (takes : Variable → String → Prop) (form : List FormPiece) : Prop :=
  ∀ p here, FormPiece.part p ∈ form → p.Writes takes here → here ≠ [] ∧ side.delimiter ∉ here

/-- The text of a form is cut where the form is cut, and its empty pieces are the empty segments. -/
theorem Side.Writes.cut {form : List FormPiece} {cs : List Char} (h : side.Writes takes form cs)
    (hsolid : Solid side takes form) :
    List.Forall₂ (fun segment piece => SegmentWrites takes segment piece ∧ (segment = [] ↔ piece = []))
      (cutForm form) (splitAt side.delimiter cs) := by
  induction h with
  | nil => exact .cons ⟨.nil, iff_of_true rfl rfl⟩ .nil
  | @delimiter form cs h ih =>
    rw [cutForm, splitAt, if_pos rfl]
    exact .cons ⟨.nil, iff_of_true rfl rfl⟩ (ih fun p here hp => hsolid p here (List.mem_cons_of_mem _ hp))
  | @part p form here cs head h ih =>
    have ih := ih fun p here hp => hsolid p here (List.mem_cons_of_mem _ hp)
    obtain ⟨hne, hdelimiter⟩ := hsolid p here List.mem_cons_self head
    rw [cutForm]
    cases hpieces : splitAt side.delimiter cs with
    | nil => exact absurd hpieces (splitAt_ne_nil _ _)
    | cons piece pieces =>
      rw [splitAt_append hdelimiter hpieces]
      rw [hpieces] at ih
      generalize cutForm form = segments at ih
      cases ih with
      | cons hfirst hothers =>
        exact .cons ⟨.cons head hfirst.1, by simp [hne]⟩ hothers

/-- The segments of a form are written as the pieces of its text that are not empty. -/
theorem Side.Writes.segments {form : List FormPiece} {cs : List Char} (h : side.Writes takes form cs)
    (hsolid : Solid side takes form) :
    List.Forall₂ (SegmentWrites takes) (segmentsOf form) (fullPieces side.delimiter cs) := by
  refine (List.rel_filter (fun segment piece hpiece => ?_) (h.cut hsolid)).imp fun _ _ h => h.1
  simp [hpiece.2]

/-! ## Keys -/

/-- A key is a text or a variable alone. -/
def Key.isSingle : Key → Bool
  | .literal _ => true
  | .pattern p => match p.parts with
    | [.var _] => true
    | _ => false

/-- Text of a host or path as a walk sees it in a request. -/
def Side.requested : Side → String → String
  | host => lowercaseAscii
  | path => id

theorem SegmentWrites.join {segment : List SegmentPart} {cs : List Char}
    (h : SegmentWrites takes segment cs) : SegmentWrites takes (joinTexts segment) cs := by
  induction h with
  | nil => exact .nil
  | @cons p rest here later head tail ih =>
    cases head with
    | var h => exact .cons (.var h) ih
    | literal s =>
      rw [joinTexts]
      split
      · next s' rest' hrest =>
        rw [hrest] at ih
        cases ih with
        | cons head' tail' =>
          cases head'
          rw [← List.append_assoc, ← String.toList_append]
          exact .cons (.literal _) tail'
      · exact .cons (.literal s) ih

/-- A variable is filled with values that it accepts and a request shows unchanged. -/
def Side.Fills (side : Side) (takes : Variable → String → Prop) : Prop :=
  ∀ v value, takes v value →
    v.accepts value = true ∧ side.delimiter ∉ value.toList ∧ side.requested value = value

/-- A key that is a text or a variable alone takes what is written for its segment. -/
theorem exists_takes_of_keyOf {segment : List SegmentPart} {cs : List Char} {k : Key}
    (hwrites : SegmentWrites takes segment cs) (hne : segment ≠ [])
    (htexts : ∀ s, .literal s ∈ segment → side.Uncut s) (hkey : keyOf side segment = .ok k)
    (hsingle : k.isSingle = true) (hfills : side.Fills takes)
    (hlower : side = .host → ∀ c ∈ cs, LowersPlainly c) :
    ∃ captures, k.Takes (side.requested (String.ofList cs)) captures := by
  have hjoined := hwrites.join
  unfold keyOf at hkey
  rw [joinTexts_present htexts] at hkey
  cases hparts : joinTexts segment with
  | nil => exact absurd hparts (joinTexts_ne_nil hne)
  | cons p rest =>
    rw [hparts] at hjoined hkey
    cases rest with
    | nil =>
      cases hjoined with
      | cons head tail =>
        cases tail
        rw [List.append_nil] at hlower ⊢
        cases head with
        | literal s =>
          rw [String.ofList_toList]
          cases side with
          | path =>
            cases hkey
            exact ⟨[], .literal s⟩
          | host =>
            cases hkey
            rw [lowercase_eq_ascii_iff.mpr (hlower rfl)]
            exact ⟨[], .literal _⟩
        | @var v value h =>
          cases hkey
          obtain ⟨haccepts, -, hrequested⟩ := hfills v value h
          rw [String.ofList_toList, hrequested]
          exact ⟨_, takes_pattern_iff.mpr ((capture?_lone v value).trans (if_pos haccepts))⟩
    | cons q rest =>
      split at hkey
      · next hnil => cases hnil
      · next hliteral => exact absurd (List.cons.inj hliteral).2 (List.cons_ne_nil _ _)
      · dsimp only at hkey
        split at hkey
        · cases hkey
          unfold Key.isSingle at hsingle
          dsimp only at hsingle
          split at hsingle
          · next hvar => exact absurd (List.cons.inj hvar).2 (List.cons_ne_nil _ _)
          · cases hsingle
        · cases hkey

end

/-! ## Rows of keys -/

theorem exists_rowTakes {row : List Key} {segments : List String}
    (h : List.Forall₂ (fun k segment => ∃ captures, k.Takes segment captures) row segments) :
    ∃ captures, RowTakes row segments captures := by
  induction h with
  | nil => exact ⟨_, .nil⟩
  | cons head _ ih =>
    obtain ⟨here, hhere⟩ := head
    obtain ⟨later, hlater⟩ := ih
    exact ⟨_, .cons hhere hlater⟩

/-- Two lists that go with a third one go with each other. -/
theorem forall₂_through {β γ δ : Type} {R : β → γ → Prop} {S : β → δ → Prop} {bs : List β} {cs : List γ}
    {ds : List δ} (h : List.Forall₂ R bs cs) (h' : List.Forall₂ S bs ds) :
    List.Forall₂ (fun c d => c ∈ cs ∧ d ∈ ds ∧ ∃ b ∈ bs, R b c ∧ S b d) cs ds := by
  obtain ⟨hlength, hget⟩ := List.forall₂_iff_get.mp h
  obtain ⟨hlength', hget'⟩ := List.forall₂_iff_get.mp h'
  refine List.forall₂_iff_get.mpr ⟨hlength.symm.trans hlength', fun i hc hd => ?_⟩
  have hb : i < bs.length := hlength ▸ hc
  exact ⟨List.get_mem cs _, List.get_mem ds _, bs.get ⟨i, hb⟩, List.get_mem bs _, hget i hb hc,
    hget' i hb hd⟩

/-- What a request is left with of a text on one side: its pieces that are not empty. -/
def Side.piecesOf (side : Side) (text : String) : List String :=
  (fullPieces side.delimiter text.toList).map fun piece => side.requested (String.ofList piece)

section

variable {side : Side} {takes : Variable → String → Prop} {c : Compiler}

/-- The keys of a form take what is written for it. -/
theorem Side.Writes.taken {form : List FormPiece} {cs : List Char} {row : List Key}
    (h : side.Writes takes form cs) (htexts : ∀ s, FormPiece.part (.literal s) ∈ form → side.Uncut s)
    (hfills : side.Fills takes) (hrow : c.keysOf side form = .ok row)
    (hsingle : ∀ k ∈ row, k.isSingle = true) (hlower : side = .host → ∀ ch ∈ cs, LowersPlainly ch) :
    List.Forall₂ (fun k segment => ∃ captures, k.Takes segment captures) row
      (side.piecesOf (String.ofList cs)) := by
  have hsolid : Solid side takes form := by
    intro p here hp hwrites
    cases hwrites with
    | literal s => exact ⟨fun hnil => (htexts s hp).1 (String.toList_eq_nil_iff.mp hnil), (htexts s hp).2⟩
    | @var v value hvalue =>
      obtain ⟨haccepts, hdelimiter, -⟩ := hfills v value hvalue
      refine ⟨fun hnil => ?_, hdelimiter⟩
      rw [String.toList_eq_nil_iff.mp hnil] at haccepts
      cases haccepts
  have hkeys : (segmentsOf form).mapM (keyOf side) = .ok row := by
    unfold Compiler.keysOf at hrow
    dsimp only at hrow
    split at hrow
    · cases hrow
    · exact hrow
  have hpairs := forall₂_through (forall₂_of_mapM_ok hkeys) (h.segments hsolid)
  rw [Side.piecesOf, String.toList_ofList, List.forall₂_map_right_iff]
  refine hpairs.imp fun k piece hpair => ?_
  obtain ⟨hk, hpiece, segment, hsegment, hkey, hwrites⟩ := hpair
  obtain ⟨hcut, hne⟩ := List.mem_filter.mp hsegment
  refine exists_takes_of_keyOf hwrites (fun hnil => ?_) (fun s hs => htexts s (mem_of_mem_cutForm hcut hs))
    hkey (hsingle k hk) hfills fun hhost ch hch => ?_
  · rw [hnil] at hne
    cases hne
  · exact hlower hhost ch (mem_of_mem_splitAt (List.mem_filter.mp hpiece).1 hch)

variable {parts : List (Part Slot)} {rows : List (List Key)} {w : Renderer} {text : String}

/-- What is written for a template is the text of a form that has a row of keys. -/
theorem Compiler.exists_form_of_render (hexpand : c.expand w.side parts = .ok rows)
    (hrender : w.text parts = .ok text)
    (hvalues : ∀ slot ∈ (w.filled false parts).1, ∀ v value, c.variableOf slot = .ok v →
      w.lookup slot.name = some value → takes v (w.encode value)) :
    ∃ form, w.side.Writes takes form text.toList ∧ (∃ row ∈ rows, c.keysOf w.side form = .ok row) ∧
      ∀ s, FormPiece.part (.literal s) ∈ form → s ∈ Part.texts parts := by
  obtain ⟨omitted, hrender⟩ := Renderer.text_ok hrender
  obtain ⟨resolved, count, hresolve, hforms⟩ := expand_resolves hexpand
  obtain ⟨-, form, hform, hwrites⟩ := Renderer.render_writes hresolve hrender hvalues
  refine ⟨form, hwrites, exists_of_mapM_ok hforms (mem_formsOf.mpr hform), fun s hs => ?_⟩
  rw [← texts_resolve hresolve]
  exact hform.mem_texts hs

/-- Some row of keys of a template takes what is written for it, if all its keys are texts or
variables alone. -/
theorem Compiler.exists_row_of_render (hexpand : c.expand w.side parts = .ok rows)
    (hrender : w.text parts = .ok text) (htexts : w.side.AllTexts parts) (hfills : w.side.Fills takes)
    (hsingle : ∀ row ∈ rows, ∀ k ∈ row, k.isSingle = true)
    (hvalues : ∀ slot ∈ (w.filled false parts).1, ∀ v value, c.variableOf slot = .ok v →
      w.lookup slot.name = some value → takes v (w.encode value))
    (hlower : w.side = .host → ∀ ch ∈ text.toList, LowersPlainly ch) :
    ∃ row ∈ rows, List.Forall₂ (fun k segment => ∃ captures, k.Takes segment captures) row
      (w.side.piecesOf text) := by
  obtain ⟨form, hwrites, ⟨row, hrow, hkeys⟩, hmem⟩ := exists_form_of_render hexpand hrender hvalues
  rw [← String.ofList_toList (s := text)]
  exact ⟨row, hrow, hwrites.taken (fun s hs => (htexts s (hmem s hs)).uncut) hfills hkeys
    (hsingle row hrow) hlower⟩

theorem Side.Writes.mem {form : List FormPiece} {cs : List Char} (h : side.Writes takes form cs)
    {ch : Char} (hch : ch ∈ cs) : ch = side.delimiter ∨
      (∃ s, FormPiece.part (.literal s) ∈ form ∧ ch ∈ s.toList) ∨
      ∃ v value, takes v value ∧ ch ∈ value.toList := by
  induction h with
  | nil => cases hch
  | delimiter h ih =>
    rcases List.mem_cons.mp hch with hch | hch
    · exact Or.inl hch
    · refine (ih hch).imp_right (Or.imp_left fun h => ?_)
      obtain ⟨s, hs, hch⟩ := h
      exact ⟨s, List.mem_cons_of_mem _ hs, hch⟩
  | part head h ih =>
    rcases List.mem_append.mp hch with hch | hch
    · cases head with
      | literal s => exact Or.inr (Or.inl ⟨s, List.mem_cons_self, hch⟩)
      | var h => exact Or.inr (Or.inr ⟨_, _, h, hch⟩)
    · refine (ih hch).imp_right (Or.imp_left fun h => ?_)
      obtain ⟨s, hs, hch⟩ := h
      exact ⟨s, List.mem_cons_of_mem _ hs, hch⟩

/-- A character that the side keeps for itself is written only as its delimiter, if no value holds
it. -/
theorem Compiler.not_mem_of_render (hexpand : c.expand w.side parts = .ok rows)
    (hrender : w.text parts = .ok text) (htexts : w.side.AllTexts parts) {ch : Char}
    (hreserved : ch ∈ w.side.reserved) (hdelimiter : ch ≠ w.side.delimiter)
    (hplain : ∀ v value, takes v value → ch ∉ value.toList)
    (hvalues : ∀ slot ∈ (w.filled false parts).1, ∀ v value, c.variableOf slot = .ok v →
      w.lookup slot.name = some value → takes v (w.encode value)) : ch ∉ text.toList := by
  intro hch
  obtain ⟨form, hwrites, -, hmem⟩ := exists_form_of_render hexpand hrender hvalues
  rcases hwrites.mem hch with h | ⟨s, hs, h⟩ | ⟨v, value, hvalue, h⟩
  · exact hdelimiter h
  · exact (htexts s (hmem s hs)).2 ch h hreserved
  · exact hplain v value hvalue h

end

end UriRouting
