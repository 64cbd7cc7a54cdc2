import Mathlib.Data.List.Nodup
import UriRouting.Proofs.Trie.Fits
import UriRouting.Proofs.Trie.Resolved
/-!
The ways to keep or drop the optional parts of a row.

A way has a choice for each optional part, and dropping a part drops all that is in it. `waysOf` lists the
ways of a row and `Chooses` tells which pieces a way keeps. Expanding a row makes one form for each way:
`Compiler.expand_exact`. It counts the forms as it goes, at each optional part however deep. As an
optional part never makes forms fewer, one of these counts is above the limit exactly if the number of all
ways is: `Compiler.resolve_exact`.
-/

namespace UriRouting

/-! ## Numbers of choices -/

mutual

/-- The number of ways to keep or drop what is optional in a part. -/
def Part.choices {ν : Type} : Part ν → Nat
  | .optional parts => 1 + rowChoices parts
  | .delimiter | .text _ | .var _ => 1

/-- The number of ways to keep or drop the optional parts of a row. -/
def rowChoices {ν : Type} : List (Part ν) → Nat
  | [] => 1
  | p :: rest => p.choices * rowChoices rest

end

theorem rowChoices_mapRow {ν μ : Type} (f : ν → μ) (parts : List (Part ν)) :
    rowChoices (Part.mapRow f parts) = rowChoices parts := by
  induction parts using Part.rows_induction with
  | nil => rfl
  | delimiter rest ih => simp [rowChoices, Part.choices, ih]
  | text s rest ih => simp [rowChoices, Part.choices, ih]
  | var v rest ih => simp [rowChoices, Part.choices, ih]
  | optional inner rest ihinner ih => simp [rowChoices, Part.choices, ihinner, ih]

theorem length_formsOf (parts : List (Part Variable)) : (formsOf parts).length = rowChoices parts := by
  induction parts using Part.rows_induction with
  | nil => rfl
  | delimiter rest ih => simp [length_formsOf_cons, formsOfPart, rowChoices, Part.choices, ih]
  | text s rest ih => simp [length_formsOf_cons, formsOfPart, rowChoices, Part.choices, ih]
  | var v rest ih => simp [length_formsOf_cons, formsOfPart, rowChoices, Part.choices, ih]
  | optional inner rest ihinner ih =>
    rw [length_formsOf_cons, formsOfPart, List.length_cons, ihinner, ih, rowChoices, Part.choices,
      Nat.add_comm]

theorem rowChoices_pos {ν : Type} (parts : List (Part ν)) : 0 < rowChoices parts := by
  induction parts using Part.rows_induction with
  | nil => exact Nat.one_pos
  | delimiter rest ih => simpa [rowChoices, Part.choices] using ih
  | text s rest ih => simpa [rowChoices, Part.choices] using ih
  | var v rest ih => simpa [rowChoices, Part.choices] using ih
  | optional inner rest ihinner ih => exact Nat.mul_pos (Nat.add_pos_left Nat.one_pos _) ih

theorem rowChoices_eq_one {ν : Type} {parts : List (Part ν)} (h : parts.any Part.isOptional = false) :
    rowChoices parts = 1 := by
  induction parts with
  | nil => rfl
  | cons p rest ih =>
    obtain ⟨hp, hrest⟩ := Bool.or_eq_false_iff.mp (List.any_cons ▸ h)
    cases p with
    | optional inner => cases hp
    | delimiter | text | var => rw [rowChoices, Part.choices, ih hrest]

/-! ## Ways -/

/-- What becomes of an optional part. One that is kept has a choice for each optional part right in
it. -/
inductive Choice
  | dropped
  | kept (inside : List Choice)

mutual

/-- The ways to choose in a part: one choice if it is optional, and none otherwise. -/
def waysOfPart {ν : Type} : Part ν → List (List Choice)
  | .optional parts => [.dropped] :: (waysOf parts).map fun way => [.kept way]
  | .delimiter | .text _ | .var _ => [[]]

/-- The ways to choose in a row, in the order of the forms. -/
def waysOf {ν : Type} : List (Part ν) → List (List Choice)
  | [] => [[]]
  | p :: rest => (waysOf rest).flatMap fun later => (waysOfPart p).map (· ++ later)

end

/-- The pieces of a row that are kept, in their order, with a choice for each optional part. -/
inductive Chooses : List (Part Variable) → List Choice → List FormPiece → Prop
  | nil : Chooses [] [] []
  | delimiter {rest : List (Part Variable)} {way : List Choice} {form : List FormPiece}
    (h : Chooses rest way form) : Chooses (.delimiter :: rest) way (.delimiter :: form)
  | text (s : String) {rest : List (Part Variable)} {way : List Choice} {form : List FormPiece}
    (h : Chooses rest way form) : Chooses (.text s :: rest) way (.part (.literal s) :: form)
  | var (v : Variable) {rest : List (Part Variable)} {way : List Choice} {form : List FormPiece}
    (h : Chooses rest way form) : Chooses (.var v :: rest) way (.part (.var v) :: form)
  | drop (inner : List (Part Variable)) {rest : List (Part Variable)} {way : List Choice}
    {form : List FormPiece} (h : Chooses rest way form) :
    Chooses (.optional inner :: rest) (.dropped :: way) form
  | keep {inner rest : List (Part Variable)} {inside way : List Choice} {here form : List FormPiece}
    (hinner : Chooses inner inside here) (h : Chooses rest way form) :
    Chooses (.optional inner :: rest) (.kept inside :: way) (here ++ form)

/-- A way keeps the same pieces whenever it is followed. -/
theorem Chooses.unique {parts : List (Part Variable)} {way : List Choice} {form form' : List FormPiece}
    (h : Chooses parts way form) (h' : Chooses parts way form') : form = form' := by
  induction h generalizing form' with
  | nil =>
    cases h'
    rfl
  | delimiter _ ih =>
    cases h' with
    | delimiter h' => rw [ih h']
  | text s _ ih =>
    cases h' with
    | text _ h' => rw [ih h']
  | var v _ ih =>
    cases h' with
    | var _ h' => rw [ih h']
  | drop inner _ ih =>
    cases h' with
    | drop _ h' => exact ih h'
  | keep _ _ ihinner ih =>
    cases h' with
    | keep hinner h' => rw [ihinner hinner, ih h']

section

variable {ν : Type}

theorem waysOf_delimiter (rest : List (Part ν)) : waysOf (.delimiter :: rest) = waysOf rest := by
  simp [waysOf, waysOfPart]

theorem waysOf_text (s : String) (rest : List (Part ν)) : waysOf (.text s :: rest) = waysOf rest := by
  simp [waysOf, waysOfPart]

theorem waysOf_var (v : ν) (rest : List (Part ν)) : waysOf (.var v :: rest) = waysOf rest := by
  simp [waysOf, waysOfPart]

theorem waysOf_optional (inner rest : List (Part ν)) : waysOf (.optional inner :: rest)
    = (waysOf rest).flatMap fun later =>
        (.dropped :: later) :: (waysOf inner).map fun way => .kept way :: later := by
  simp [waysOf, waysOfPart, Function.comp_def]

theorem waysOf_nodup (parts : List (Part ν)) : (waysOf parts).Nodup := by
  induction parts using Part.rows_induction with
  | nil => exact List.nodup_singleton _
  | delimiter rest ih => rwa [waysOf_delimiter]
  | text s rest ih => rwa [waysOf_text]
  | var v rest ih => rwa [waysOf_var]
  | optional inner rest ihinner ih =>
    rw [waysOf_optional]
    refine List.nodup_flatMap.mpr ⟨fun later _ => List.nodup_cons.mpr ⟨by simp, ?_⟩, ?_⟩
    · refine ihinner.map fun way way' h => ?_
      cases h
      rfl
    · -- A way tells what is chosen behind the first part.
      refine ih.imp fun hne way hway hway' => hne ?_
      have hlater : ∀ {later}, way ∈ (Choice.dropped :: later)
          :: (waysOf inner).map (fun inside => .kept inside :: later) → way.tail = later := by
        intro later hmem
        obtain rfl | hmem := List.mem_cons.mp hmem
        · rfl
        · obtain ⟨inside, -, rfl⟩ := List.mem_map.mp hmem
          rfl
      exact (hlater hway).symm.trans (hlater hway')

end

/-- The forms of a row are those that its ways keep, one by one. -/
theorem chooses_formsOf (parts : List (Part Variable)) :
    List.Forall₂ (Chooses parts) (waysOf parts) (formsOf parts) := by
  induction parts using Part.rows_induction with
  | nil => exact .cons .nil .nil
  | delimiter rest ih =>
    rw [waysOf_delimiter]
    simpa [formsOf, formsOfPart, ← List.map_eq_flatMap] using ih.imp fun _ _ h => h.delimiter
  | text s rest ih =>
    rw [waysOf_text]
    simpa [formsOf, formsOfPart, ← List.map_eq_flatMap] using ih.imp fun _ _ h => h.text s
  | var v rest ih =>
    rw [waysOf_var]
    simpa [formsOf, formsOfPart, ← List.map_eq_flatMap] using ih.imp fun _ _ h => h.var v
  | optional inner rest ihinner ih =>
    rw [waysOf_optional, formsOf]
    refine List.rel_flatMap ih fun way form h => ?_
    rw [formsOfPart, List.map_cons]
    refine .cons (h.drop inner) ?_
    simpa using ihinner.imp fun _ _ hinner => hinner.keep h

theorem length_waysOf (parts : List (Part Variable)) : (waysOf parts).length = rowChoices parts := by
  rw [(chooses_formsOf parts).length_eq, length_formsOf]

theorem mem_waysOf {parts : List (Part Variable)} {way : List Choice} :
    way ∈ waysOf parts ↔ ∃ form, Chooses parts way form := by
  constructor
  · intro hway
    obtain ⟨hlength, hget⟩ := List.forall₂_iff_get.mp (chooses_formsOf parts)
    obtain ⟨i, rfl⟩ := List.get_of_mem hway
    exact ⟨_, hget i i.2 (hlength ▸ i.2)⟩
  · intro hform
    obtain ⟨form, h⟩ := hform
    induction h with
    | nil => exact List.mem_singleton_self _
    | delimiter _ ih => rwa [waysOf_delimiter]
    | text s _ ih => rwa [waysOf_text]
    | var v _ ih => rwa [waysOf_var]
    | drop inner _ ih =>
      rw [waysOf_optional]
      exact List.mem_flatMap.mpr ⟨_, ih, List.mem_cons_self⟩
    | keep _ _ ihinner ih =>
      rw [waysOf_optional]
      exact List.mem_flatMap.mpr ⟨_, ih, List.mem_cons_of_mem _ (List.mem_map_of_mem ihinner)⟩

/-! ## The limit -/

namespace Compiler

theorem rowChoices_resolve {c : Compiler} {forms count : Nat} {parts : List (Part Slot)}
    {resolved : List (Part Variable)} (h : c.resolve forms parts = .ok (resolved, count)) :
    rowChoices resolved = rowChoices parts := by
  rw [← rowChoices_mapRow Variable.name, resolve_names h, rowChoices_mapRow]

/-- The count that is kept is that of the forms, each of those before with each choice of the row. -/
theorem resolve_count {c : Compiler} {forms count : Nat} {parts : List (Part Slot)}
    {resolved : List (Part Variable)} (h : c.resolve forms parts = .ok (resolved, count)) :
    count = forms * rowChoices parts := by
  rw [resolve_length h, length_formsOf, rowChoices_resolve h]

/-- Each optional part leaves at most as many forms as the limit. Without any there are those of
before. -/
theorem resolve_le {c : Compiler} {forms count : Nat} {parts : List (Part Slot)}
    {resolved : List (Part Variable)} (h : c.resolve forms parts = .ok (resolved, count)) :
    count ≤ max forms c.config.maxTemplateAlternatives := by
  induction parts using Part.rows_induction generalizing forms count resolved with
  | nil =>
    cases h
    exact Nat.le_max_left _ _
  | delimiter rest ih =>
    obtain ⟨p', n, rest', hp, hrest, rfl⟩ := resolve_cons_ok h
    cases hp
    exact ih hrest
  | text s rest ih =>
    obtain ⟨p', n, rest', hp, hrest, rfl⟩ := resolve_cons_ok h
    cases hp
    exact ih hrest
  | var slot rest ih =>
    obtain ⟨p', n, rest', hp, hrest, rfl⟩ := resolve_cons_ok h
    rw [resolvePart_var_count hp] at hrest
    exact ih hrest
  | optional inner rest ihinner ih =>
    obtain ⟨p', n, rest', hp, hrest, rfl⟩ := resolve_cons_ok h
    obtain ⟨inner', longer, -, -, -, hle⟩ := resolvePart_optional_cases hp
    have hcount := ih hrest
    omega

/-- What finding rules that are all there comes to: an error exactly if the row has an optional part and
more ways than the limit. -/
def found (c : Compiler) (forms : Nat) (row : List (Part Variable)) :
    Except CompileError (List (Part Variable) × Nat) :=
  if row.any Part.isOptional ∧ c.config.maxTemplateAlternatives < forms * rowChoices row then
    .error (.tooManyAlternatives c.config.maxTemplateAlternatives)
  else .ok (row, forms * rowChoices row)

theorem found_cons_of_plain {c : Compiler} {forms : Nat} {p : Part Slot} {q : Part Variable}
    {rest : List (Part Slot)} {row : List (Part Variable)} (hp : c.resolvePart forms p = .ok (q, forms))
    (hplain : q.isOptional = false) (hrest : c.resolve forms rest = c.found forms row) :
    c.resolve forms (p :: rest) = c.found forms (q :: row) := by
  have hchoices : rowChoices (q :: row) = rowChoices row := by
    cases q with
    | optional inner => cases hplain
    | delimiter | text | var => rw [rowChoices, Part.choices, Nat.one_mul]
  rw [resolve, hp]
  dsimp only
  rw [hrest, found, found, List.any_cons, hplain, Bool.false_or, hchoices]
  split_ifs <;> rfl

theorem found_cons_optional {c : Compiler} {forms : Nat} {inner rest : List (Part Slot)}
    {inside row : List (Part Variable)} (hinner : c.resolve forms inner = c.found forms inside)
    (hrest : ∀ forms, c.resolve forms rest = c.found forms row) :
    c.resolve forms (.optional inner :: rest) = c.found forms (.optional inside :: row) := by
  have hn : forms + forms * rowChoices inside = forms * (1 + rowChoices inside) := by
    rw [Nat.mul_add, Nat.mul_one]
  have hchoices : forms * rowChoices (.optional inside :: row)
      = forms * (1 + rowChoices inside) * rowChoices row := by
    rw [rowChoices, Part.choices, Nat.mul_assoc]
  -- No count is above the last one.
  have hlast : forms * (1 + rowChoices inside) ≤ forms * rowChoices (.optional inside :: row) := by
    rw [hchoices]
    exact Nat.le_mul_of_pos_right _ (rowChoices_pos row)
  have hinside : forms * rowChoices inside ≤ forms * (1 + rowChoices inside) :=
    Nat.mul_le_mul_left _ (Nat.le_add_left _ _)
  rw [resolve, resolvePart, hinner]
  by_cases hover : c.config.maxTemplateAlternatives < forms * rowChoices (.optional inside :: row)
  · have herror : c.found forms (.optional inside :: row)
        = .error (.tooManyAlternatives c.config.maxTemplateAlternatives) := if_pos ⟨rfl, hover⟩
    rw [herror]
    by_cases hin : inside.any Part.isOptional ∧
        c.config.maxTemplateAlternatives < forms * rowChoices inside
    · rw [found, if_pos hin]
    · rw [found, if_neg hin]
      dsimp only
      rw [hn]
      by_cases hhere : c.config.maxTemplateAlternatives < forms * (1 + rowChoices inside)
      · rw [if_pos hhere]
      · rw [if_neg hhere]
        dsimp only
        -- Only a further optional part can bring the count above the limit.
        have hopt : row.any Part.isOptional = true := by
          by_contra hnone
          rw [hchoices, rowChoices_eq_one (Bool.eq_false_iff.mpr hnone), Nat.mul_one] at hover
          exact hhere hover
        rw [hrest, found, if_pos ⟨hopt, hchoices ▸ hover⟩]
  · have hin : ¬ (inside.any Part.isOptional ∧
        c.config.maxTemplateAlternatives < forms * rowChoices inside) := by omega
    have hhere : ¬ c.config.maxTemplateAlternatives < forms * (1 + rowChoices inside) := by omega
    have hbehind : ¬ (row.any Part.isOptional ∧
        c.config.maxTemplateAlternatives < forms * (1 + rowChoices inside) * rowChoices row) :=
      fun h => hover (hchoices ▸ h.2)
    rw [found, if_neg hin]
    dsimp only
    rw [hn, if_neg hhere]
    dsimp only
    rw [hrest, found, if_neg hbehind, found, if_neg fun h => hover h.2, hchoices]

/-- With rules for all of its variables, a row is refused only if it has an optional part and more ways
than the limit. -/
theorem resolve_exact {c : Compiler} {parts : List (Part Slot)} {row : List (Part Variable)}
    (hrules : Part.mapRow c.variableOf parts = Part.mapRow .ok row) (forms : Nat) :
    c.resolve forms parts = c.found forms row := by
  induction parts using Part.rows_induction generalizing row forms with
  | nil =>
    cases row with
    | nil => simp [resolve, found, rowChoices]
    | cons q row => cases hrules
  | delimiter rest ih =>
    obtain ⟨q, row, rfl, hq, hrest⟩ := Part.mapRow_cons_eq hrules
    cases q <;> cases hq
    exact found_cons_of_plain rfl rfl (ih hrest forms)
  | text s rest ih =>
    obtain ⟨q, row, rfl, hq, hrest⟩ := Part.mapRow_cons_eq hrules
    cases q <;> cases hq
    exact found_cons_of_plain rfl rfl (ih hrest forms)
  | var slot rest ih =>
    obtain ⟨q, row, rfl, hq, hrest⟩ := Part.mapRow_cons_eq hrules
    cases q with
    | delimiter | text | optional => cases hq
    | var v =>
      have hslot : c.variableOf slot = .ok v := Part.var.inj hq
      exact found_cons_of_plain (by rw [resolvePart, hslot]) rfl (ih hrest forms)
  | optional inner rest ihinner ih =>
    obtain ⟨q, row, rfl, hq, hrest⟩ := Part.mapRow_cons_eq hrules
    cases q with
    | delimiter | text | var => cases hq
    | optional inside =>
      exact found_cons_optional (ihinner (Part.optional.inj hq) forms) (ih hrest)

end Compiler

/-! ## Keys of forms -/

theorem mapM_ok_iff {α γ ε : Type} {f : α → Except ε γ} {as : List α} {bs : List γ} :
    as.mapM f = .ok bs ↔ List.Forall₂ (fun a b => f a = .ok b) as bs := by
  refine ⟨forall₂_of_mapM_ok, fun h => ?_⟩
  induction h with
  | nil => rfl
  | cons hab _ ih =>
    rw [List.mapM_cons, hab, ih]
    rfl

/-- The first error counts. -/
theorem mapM_error_iff {α γ ε : Type} {f : α → Except ε γ} {as : List α} {e : ε} :
    as.mapM f = .error e ↔ ∃ before a after, as = before ++ a :: after ∧ f a = .error e ∧
      ∀ a' ∈ before, ∃ b, f a' = .ok b := by
  induction as with
  | nil =>
    constructor
    · intro h
      cases h
    · intro h
      obtain ⟨before, a, after, has, -⟩ := h
      cases before <;> cases has
  | cons a as ih =>
    rw [List.mapM_cons]
    cases ha : f a with
    | error e' =>
      constructor
      · intro h
        cases h
        exact ⟨[], a, as, rfl, ha, by simp⟩
      · intro h
        obtain ⟨before, a', after, has, herror, hbefore⟩ := h
        cases before with
        | nil =>
          cases has
          rw [herror] at ha
          cases ha
          rfl
        | cons a'' before =>
          cases has
          obtain ⟨b, hb⟩ := hbefore a List.mem_cons_self
          rw [hb] at ha
          cases ha
    | ok b =>
      have hstep : (do let b ← Except.ok b; let bs ← as.mapM f; pure (b :: bs)) = .error e
          ↔ as.mapM f = .error e := by
        cases as.mapM f with
        | error e' => rfl
        | ok bs => exact ⟨nofun, nofun⟩
      rw [hstep, ih]
      constructor
      · intro h
        obtain ⟨before, a', after, rfl, herror, hbefore⟩ := h
        exact ⟨a :: before, a', after, rfl, herror, List.forall_mem_cons.mpr ⟨⟨b, ha⟩, hbefore⟩⟩
      · intro h
        obtain ⟨before, a', after, has, herror, hbefore⟩ := h
        cases before with
        | nil =>
          cases has
          rw [herror] at ha
          cases ha
        | cons a'' before =>
          cases has
          exact ⟨before, a', after, rfl, herror, (List.forall_mem_cons.mp hbefore).2⟩

theorem keyOf_error {side : Side} {segment : List SegmentPart} {e : CompileError}
    (h : keyOf side segment = .error e) : ∃ pattern, e = .patternTooLarge pattern := by
  unfold keyOf at h
  split at h
  · cases h
  · cases h
  · dsimp only at h
    split at h
    · cases h
    · cases h
      exact ⟨_, rfl⟩

namespace Compiler

variable {c : Compiler} {side : Side} {form : Form}

/-- The segments of a form become the keys of a row, if there are not too many. -/
def Compiles (c : Compiler) (side : Side) (form : Form) (row : List Key) : Prop :=
  form.segments.length ≤ c.config.maxSegments ∧
    List.Forall₂ (fun segment k => keyOf side segment = .ok k) form.segments row

theorem keysOfForm_ok_iff {row : List Key} :
    c.keysOfForm side form = .ok row ↔ c.Compiles side form row := by
  rw [keysOfForm, Compiles]
  split
  · next hlong =>
    refine iff_of_false (fun h => ?_) fun h => absurd h.1 (Nat.not_le.mpr hlong)
    cases h
  · next hshort =>
    rw [mapM_ok_iff]
    exact (and_iff_right (Nat.le_of_not_lt hshort)).symm

theorem keysOfForm_tooManySegments_iff :
    c.keysOfForm side form = .error (.tooManySegments c.config.maxSegments) ↔
      c.config.maxSegments < form.segments.length := by
  rw [keysOfForm]
  split
  · next hlong => exact ⟨fun _ => hlong, fun _ => rfl⟩
  · next hshort =>
    refine ⟨fun h => ?_, fun h => absurd h hshort⟩
    obtain ⟨-, segment, -, -, herror, -⟩ := mapM_error_iff.mp h
    obtain ⟨pattern, hpattern⟩ := keyOf_error herror
    cases hpattern

theorem keysOfForm_error {e : CompileError} (h : c.keysOfForm side form = .error e) :
    e = .tooManySegments c.config.maxSegments ∨ ∃ pattern, e = .patternTooLarge pattern := by
  rw [keysOfForm] at h
  split at h
  · cases h
    exact Or.inl rfl
  · obtain ⟨-, segment, -, -, herror, -⟩ := mapM_error_iff.mp h
    exact Or.inr (keyOf_error herror)

/-- What comes of the forms of a side: a row of keys for each, or an error. There are too many segments
in one if all forms before it became rows. -/
structure Result (c : Compiler) (side : Side) (forms : List Form)
    (result : Except CompileError (List (List Key))) : Prop where
  rows : ∀ rows, result = .ok rows ↔ List.Forall₂ (c.Compiles side) forms rows
  tooManySegments : result = .error (.tooManySegments c.config.maxSegments) ↔
    ∃ before form after, forms = before ++ form :: after ∧
      c.config.maxSegments < form.segments.length ∧
      ∀ form' ∈ before, form'.segments.length ≤ c.config.maxSegments ∧
        ∀ segment ∈ form'.segments, ∃ k, keyOf side segment = .ok k
  otherwise : ∀ e, result = .error e →
    e = .tooManySegments c.config.maxSegments ∨ ∃ pattern, e = .patternTooLarge pattern

theorem exists_compiles_iff : (∃ row, c.Compiles side form row) ↔
    form.segments.length ≤ c.config.maxSegments ∧
      ∀ segment ∈ form.segments, ∃ k, keyOf side segment = .ok k := by
  simp only [Compiles, exists_and_left, ← mapM_ok_iff]
  refine and_congr_right fun _ => ⟨fun hkeys segment hsegment => ?_, exists_mapM_ok⟩
  obtain ⟨row, hrow⟩ := hkeys
  obtain ⟨k, -, hk⟩ := exists_of_mapM_ok hrow hsegment
  exact ⟨k, hk⟩

theorem result_mapM (c : Compiler) (side : Side) (forms : List Form) :
    c.Result side forms (forms.mapM (c.keysOfForm side)) := by
  refine ⟨fun rows => ?_, ?_, fun e he => ?_⟩
  · rw [mapM_ok_iff]
    simp only [keysOfForm_ok_iff]
  · rw [mapM_error_iff]
    simp only [keysOfForm_tooManySegments_iff, keysOfForm_ok_iff, exists_compiles_iff]
  · obtain ⟨-, form, -, -, herror, -⟩ := mapM_error_iff.mp he
    exact keysOfForm_error herror

/-- What expanding a row comes to whose variables get the rules in `row`. -/
structure Expands (c : Compiler) (side : Side) (parts : List (Part Slot)) (row : List (Part Variable)) :
    Prop where
  ways : (waysOf row).Nodup ∧ (waysOf row).length = rowChoices row ∧
    ∀ way, way ∈ waysOf row ↔ ∃ pieces, Chooses row way pieces
  tooManyAlternatives :
    c.expand side parts = .error (.tooManyAlternatives c.config.maxTemplateAlternatives) ↔
      row.any Part.isOptional = true ∧ c.config.maxTemplateAlternatives < rowChoices row
  forms : ¬ (row.any Part.isOptional = true ∧ c.config.maxTemplateAlternatives < rowChoices row) →
    ∃ forms, c.expandRow [.start] parts = .ok forms ∧
      List.Forall₂ (fun way form => ∃ pieces, Chooses row way pieces ∧
        form.segments = segmentsOf pieces) (waysOf row) forms ∧
      c.Result side forms (c.expand side parts)

/-- Expanding makes one form for each way to keep or drop optional parts, unless there are too many. -/
theorem expand_exact {parts : List (Part Slot)} {row : List (Part Variable)}
    (hrules : Part.mapRow c.variableOf parts = Part.mapRow .ok row) (side : Side) :
    c.Expands side parts row := by
  have hexact := resolve_exact hrules 1
  rw [found, Nat.one_mul] at hexact
  have hrow := c.expandRow_eq [.start] parts
  rw [List.length_singleton, hexact] at hrow
  have hways : (waysOf row).Nodup ∧ (waysOf row).length = rowChoices row ∧
      ∀ way, way ∈ waysOf row ↔ ∃ pieces, Chooses row way pieces :=
    ⟨waysOf_nodup row, length_waysOf row, fun way => mem_waysOf⟩
  by_cases hover : row.any Part.isOptional = true ∧ c.config.maxTemplateAlternatives < rowChoices row
  · rw [if_pos hover] at hrow
    have hexpand : c.expand side parts
        = .error (.tooManyAlternatives c.config.maxTemplateAlternatives) := by
      rw [expand, hrow]
      rfl
    exact ⟨hways, iff_of_true hexpand hover, fun h => absurd hover h⟩
  · rw [if_neg hover] at hrow
    have hforms : c.expandRow [.start] parts = .ok ((formsOf row).map Form.start.extend) := by
      rw [hrow, List.map_eq_flatMap]
      rfl
    have hexpand : c.expand side parts
        = ((formsOf row).map Form.start.extend).mapM (c.keysOfForm side) := by
      rw [expand, hforms]
    have hresult := c.result_mapM side ((formsOf row).map Form.start.extend)
    rw [← hexpand] at hresult
    refine ⟨hways, iff_of_false (fun herror => ?_) hover, fun _ => ⟨_, hforms, ?_, hresult⟩⟩
    · obtain heq | ⟨pattern, heq⟩ := hresult.otherwise _ herror
      · cases heq
      · cases heq
    · rw [List.forall₂_map_right_iff]
      exact (chooses_formsOf row).imp fun way pieces h => ⟨pieces, h, segments_extend pieces⟩

end Compiler

end UriRouting
