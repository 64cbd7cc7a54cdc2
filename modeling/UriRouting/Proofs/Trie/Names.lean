import UriRouting.Proofs.Trie.Joined
import UriRouting.Proofs.Trie.Reach
import UriRouting.Proofs.Trie.Resolved
/-!
The names of variables, from the parts of a template to what a walk captures.

A form has the variables of its choice of optional parts, its keys have those of the form, and a row of
keys captures one value for each of its variables: `Compiler.Spells.names`, `RowTakes.names`. In a trie a
row may lead along keys that are not its own, but they have the same names: `Trie.Named.build`.
-/

namespace UriRouting

/-! ## Keys -/

def SegmentPart.name? : SegmentPart → Option String
  | literal _ => none
  | var v => some v.name

def Key.names : Key → List String
  | .literal _ => []
  | .pattern p => p.parts.filterMap SegmentPart.name?

def rowNames (row : List Key) : List String := row.flatMap Key.names

theorem rowNames_cons (k : Key) (row : List Key) :
    rowNames (k :: row) = k.names ++ rowNames row := rfl

theorem SegmentPattern.vars_names (p : SegmentPattern) :
    p.vars.map Variable.name = p.parts.filterMap SegmentPart.name? := by
  rw [vars, List.map_filterMap]
  congr 1
  funext part
  cases part <;> rfl

theorem filterMap_of_pairwiseSame {γ δ : Type} {same : γ → γ → Bool} {f : γ → Option δ}
    (hf : ∀ a b, same a b = true → f a = f b) {as bs : List γ} (h : pairwiseSame same as bs = true) :
    as.filterMap f = bs.filterMap f := by
  induction as generalizing bs with
  | nil =>
    cases bs with
    | nil => rfl
    | cons b bs => cases h
  | cons a as ih =>
    cases bs with
    | nil => cases h
    | cons b bs =>
      obtain ⟨hab, hrest⟩ := Bool.and_eq_true_iff.mp h
      rw [List.filterMap_cons, List.filterMap_cons, hf a b hab, ih hrest]

theorem name?_of_same {a b : SegmentPart} (h : a.same b = true) : a.name? = b.name? := by
  cases a with
  | literal text =>
    cases b with
    | literal text' => rfl
    | var w => cases h
  | var v =>
    cases b with
    | literal text => cases h
    | var w => exact congrArg some (of_decide_eq_true (Bool.and_eq_true_iff.mp h).1)

/-- Keys that are the same have the same names, whatever the parameters of their rules. -/
theorem names_of_same {k k' : Key} (h : k.same k' = true) : k.names = k'.names := by
  cases k with
  | literal text =>
    cases k' with
    | literal text' => rfl
    | pattern p => cases h
  | pattern p =>
    cases k' with
    | literal text => cases h
    | pattern q => exact filterMap_of_pairwiseSame (fun a b hab => name?_of_same hab) h

theorem names_of_places {β : Type} {t : Trie β} {path row : List Key}
    (h : List.Forall₂ (Trie.InPlaceOf t) path row) : rowNames path = rowNames row := by
  induction h with
  | nil => rfl
  | cons hplace _ ih =>
    rw [rowNames_cons, rowNames_cons, ih]
    rcases hplace with rfl | ⟨hsame, -⟩
    · rfl
    · rw [names_of_same hsame]

/-! ## Captures -/

theorem mem_of_head?_join {γ : Type} {l : List (Option γ)} {x : γ} (h : l.head?.join = some x) :
    some x ∈ l := by
  cases l with
  | nil => cases h
  | cons a l =>
    have ha : a = some x := h
    rw [ha]
    exact List.mem_cons_self

theorem mem_of_mem_cutLiteral {text cs : List Char} {rest : List (Option Values)} {values : Values}
    (h : some values ∈ cutLiteral text cs rest) : some values ∈ rest := by
  induction cs generalizing rest with
  | nil =>
    rw [cutLiteral, List.mem_singleton] at h
    split at h
    · exact List.mem_of_mem_drop (mem_of_head?_join h.symm)
    · cases h
  | cons c cs ih =>
    rw [cutLiteral] at h
    rcases List.mem_cons.mp h with h | h
    · split at h
      · exact List.mem_of_mem_drop (mem_of_head?_join h.symm)
      · cases h
    · exact List.mem_of_mem_tail (ih h)

theorem mem_of_mem_cutValue {cs : List Char} {rest : List (Option Values)} {values : Values}
    (h : some values ∈ cutValue cs rest) : ∃ value later, values = value :: later ∧ some later ∈ rest := by
  induction cs generalizing rest values with
  | nil =>
    rw [cutValue, List.mem_singleton] at h
    cases h
  | cons c cs ih =>
    rw [cutValue] at h
    rcases List.mem_cons.mp h with h | h
    · split at h
      · cases h
      · split at h
        · next hnow =>
          cases h
          exact ⟨_, _, rfl, List.mem_of_mem_tail (mem_of_head?_join hnow)⟩
        · next hlater =>
          cases h
          obtain ⟨value, later, heq, hmem⟩ := ih (mem_of_head?_join hlater)
          cases heq
          exact ⟨_, _, rfl, List.mem_of_mem_tail hmem⟩
        · cases h
    · obtain ⟨value, later, rfl, hmem⟩ := ih h
      exact ⟨value, later, rfl, List.mem_of_mem_tail hmem⟩

/-- A segment is cut into one value for each variable. -/
theorem length_of_mem_cuts {segment : List Char} {parts : List SegmentPart} {values : Values}
    (h : some values ∈ cuts segment parts) :
    values.length = (parts.filterMap SegmentPart.var?).length := by
  induction parts generalizing values with
  | nil =>
    rw [cuts, List.mem_append, List.mem_singleton] at h
    rcases h with h | h
    · cases List.eq_of_mem_replicate h
    · cases h
      rfl
  | cons part parts ih =>
    cases part with
    | literal text => exact ih (mem_of_mem_cutLiteral h)
    | var v =>
      obtain ⟨value, later, rfl, hmem⟩ := mem_of_mem_cutValue h
      exact congrArg (· + 1) (ih hmem)

theorem names_of_values? {p : SegmentPattern} {segment : String} {values : List (Variable × String)}
    (h : p.values? segment = some values) :
    values.map (fun value => value.1.name) = p.parts.filterMap SegmentPart.name? := by
  rw [← p.vars_names]
  unfold SegmentPattern.values? at h
  split at h
  · next v hparts =>
    cases h
    rw [SegmentPattern.vars, hparts]
    rfl
  · obtain ⟨cut, hcut, rfl⟩ := Option.map_eq_some_iff.mp h
    have hlength : p.vars.length = (cut.map String.ofList).length := by
      rw [List.length_map, length_of_mem_cuts (mem_of_head?_join hcut), SegmentPattern.vars]
    have hfst := congrArg (List.map Variable.name) (List.map_fst_zip (Nat.le_of_eq hlength))
    rwa [List.map_map] at hfst

theorem Key.Takes.names {k : Key} {segment : String} {captures : Captures}
    (h : k.Takes segment captures) : captures.map Prod.fst = k.names := by
  cases k with
  | literal text =>
    rw [(takes_literal_iff.mp h).2]
    rfl
  | pattern p =>
    obtain ⟨values, hvalues, hcaptures⟩ := Option.bind_eq_some_iff.mp (takes_pattern_iff.mp h)
    split at hcaptures
    · cases hcaptures
      rw [List.map_map]
      exact names_of_values? hvalues
    · cases hcaptures

theorem RowTakes.names {row : List Key} {segments : List String} {captures : Captures}
    (h : RowTakes row segments captures) : captures.map Prod.fst = rowNames row := by
  induction h with
  | nil => rfl
  | cons head tail ih => rw [List.map_append, head.names, ih, rowNames_cons]

/-! ## Templates -/

mutual

/-- The variables that each choice of what is optional in a part keeps. -/
def Part.keptVars {ν : Type} : Part ν → List (List ν)
  | .delimiter | .text _ => [[]]
  | .var v => [[v]]
  | .optional parts => [] :: keptVars parts

/-- The variables that each choice of optional parts keeps, from left to right. -/
def keptVars {ν : Type} : List (Part ν) → List (List ν)
  | [] => [[]]
  | p :: rest => (keptVars rest).flatMap fun later => p.keptVars.map (· ++ later)

end

def FormPiece.name? : FormPiece → Option String
  | delimiter => none
  | part p => p.name?

def formNames (form : List FormPiece) : List String := form.filterMap FormPiece.name?

/-- A form keeps the variables that its choice keeps. -/
theorem formNames_formsOf (parts : List (Part Variable)) :
    (formsOf parts).map formNames = keptVars (Part.mapRow Variable.name parts) := by
  have hcons : ∀ (p : Part Variable) (rest : List (Part Variable)),
      (formsOf (p :: rest)).map formNames = ((formsOf rest).map formNames).flatMap fun later =>
        ((formsOfPart p).map formNames).map (· ++ later) := by
    intro p rest
    simp [formsOf, formNames, List.map_flatMap, List.flatMap_map, Function.comp_def]
  induction parts using Part.rows_induction with
  | nil => rfl
  | delimiter rest ih => rw [hcons, ih]; rfl
  | text s rest ih => rw [hcons, ih]; rfl
  | var v rest ih => rw [hcons, ih]; rfl
  | optional inner rest ihinner ih =>
    rw [hcons, ih, formsOfPart, List.map_cons, ihinner]
    rfl

theorem names_joinTexts (segment : List SegmentPart) :
    (joinTexts segment).filterMap SegmentPart.name? = segment.filterMap SegmentPart.name? := by
  induction segment with
  | nil => rfl
  | cons p rest ih =>
    cases p with
    | var v => rw [joinTexts, List.filterMap_cons, List.filterMap_cons, ih]
    | literal a =>
      rw [joinTexts, List.filterMap_cons, ← ih]
      split
      · next b rest' hrest =>
        rw [hrest]
        rfl
      · rfl

theorem names_present (side : Side) (parts : List SegmentPart) :
    ((parts.filter SegmentPart.isPresent).map (SegmentPart.onSide side)).filterMap SegmentPart.name?
      = parts.filterMap SegmentPart.name? := by
  have hside : ∀ p : SegmentPart, (p.onSide side).name? = p.name? := by
    intro p
    cases p <;> cases side <;> rfl
  induction parts with
  | nil => rfl
  | cons p rest ih =>
    rw [List.filter_cons, List.filterMap_cons, ← ih]
    split
    · rw [List.map_cons, List.filterMap_cons, hside]
    · next habsent =>
      cases p with
      | literal text => rfl
      | var v => exact absurd rfl habsent

theorem names_keyOf {side : Side} {segment : List SegmentPart} {k : Key}
    (h : keyOf side segment = .ok k) : k.names = segment.filterMap SegmentPart.name? := by
  rw [← names_joinTexts, ← names_present side]
  unfold keyOf at h
  split at h
  · next hnil =>
    cases h
    rw [hnil]
    rfl
  · next text hsingle =>
    cases h
    rw [hsingle]
    rfl
  · dsimp only at h
    split at h
    · cases h
      rfl
    · cases h

theorem names_cutForm (form : List FormPiece) :
    (cutForm form).flatten.filterMap SegmentPart.name? = formNames form := by
  induction form with
  | nil => rfl
  | cons piece rest ih =>
    obtain ⟨first, others, hcut⟩ := List.exists_cons_of_ne_nil (cutForm_ne_nil rest)
    cases piece with
    | delimiter => exact ih
    | part p =>
      rw [cutForm, hcut]
      rw [hcut] at ih
      show (p :: (first :: others).flatten).filterMap SegmentPart.name? = _
      rw [List.filterMap_cons, ih]
      rfl

namespace Compiler

theorem names_keysOf {c : Compiler} {side : Side} {form : List FormPiece} {row : List Key}
    (h : c.keysOf side form = .ok row) : rowNames row = formNames form := by
  unfold keysOf at h
  dsimp only at h
  split at h
  · cases h
  · have hnames : ∀ {segments : List (List SegmentPart)} {row : List Key},
        List.Forall₂ (fun segment k => keyOf side segment = .ok k) segments row →
          rowNames row = segments.flatten.filterMap SegmentPart.name? := by
      intro segments row h
      induction h with
      | nil => rfl
      | cons hkey _ ih =>
        rw [rowNames_cons, List.flatten_cons, List.filterMap_append, ih, names_keyOf hkey]
    rw [hnames (forall₂_of_mapM_ok h), ← names_cutForm, segmentsOf, List.flatten_filter_not_isEmpty]

/-- A row of keys has the names that one choice of the parts keeps. -/
theorem Spells.names {c : Compiler} {side : Side} {parts : List (Part Slot)} {row : List Key}
    (h : c.Spells side parts row) : rowNames row ∈ keptVars (Part.mapRow Slot.name parts) := by
  obtain ⟨resolved, count, form, hresolve, hform, hrow⟩ := h
  rw [← resolve_names hresolve, ← formNames_formsOf, names_keysOf hrow]
  exact List.mem_map_of_mem (mem_formsOf.mpr hform)

end Compiler

/-! ## Tries -/

variable {β : Type}

/-- What `P` says holds of the value at each node and the names on the way there. -/
def Trie.Named (P : List String → β → Prop) (t : Trie β) : Prop :=
  ∀ path s, Trie.At t path s → P (rowNames path) s.leaf

namespace Trie.Named

variable {P : List String → β → Prop} {fresh : β}

theorem single (h : ∀ names, P names fresh) : (Trie.single fresh).Named P := by
  intro path s hs
  rw [(at_single hs).2]
  exact h _

theorem insert {t : Trie β} (h : t.Named P) (ht : t.Sorted) (hfresh : ∀ names, P names fresh) {row : List Key}
    {update : β → β} (hupdate : ∀ b, P (rowNames row) b → P (rowNames row) (update b)) :
    (t.insert fresh update row).Named P := by
  intro path s hs
  rcases at_insert ht hs with ⟨-, hs⟩ | ⟨start, rest, old, rfl, hplaces, hold, rfl⟩
  · exact h path s hs
  · have hleaf : P (rowNames path) old.leaf := by
      rcases hold with hold | rfl
      · exact h path old hold
      · exact hfresh _
    rw [leaf_insert]
    split
    · next hnil =>
      rw [hnil, List.append_nil] at hupdate
      rw [names_of_places hplaces] at hleaf ⊢
      exact hupdate _ hleaf
    · exact hleaf

theorem build (hfresh : ∀ names, P names fresh) {edits : List (Edit β)}
    (h : ∀ e ∈ edits, ∀ b, P (rowNames e.row) b → P (rowNames e.row) (e.update b)) :
    (Trie.build fresh edits).Named P := by
  induction edits using List.reverseRecOn with
  | nil => exact single hfresh
  | append_singleton edits e ih =>
    rw [build_concat]
    exact (ih fun e' he' => h e' (List.mem_append_left _ he')).insert (build_sorted fresh edits) hfresh
      (h e (List.mem_append_right _ List.mem_cons_self))

end Trie.Named

end UriRouting
