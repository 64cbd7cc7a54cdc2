import UriRouting.Proofs.Trie.Fits
/-!
Rows of keys of parts that stand side by side.

With a delimiter between them, two rows of parts stand for the rows of keys of the first followed by
those of the second. Without one this holds where every form of the first row is empty or ends with a
delimiter, as in a row that `EndsCut`.
-/

namespace UriRouting

/-! ## Forms -/

theorem kept_append {front back : List (Part Variable)} {form : List FormPiece} :
    Kept (front ++ back) form ↔
      ∃ ahead behind, Kept front ahead ∧ Kept back behind ∧ form = ahead ++ behind := by
  induction front generalizing form with
  | nil =>
    constructor
    · intro h
      exact ⟨[], form, .nil, h, rfl⟩
    · intro h
      obtain ⟨ahead, behind, hahead, hbehind, rfl⟩ := h
      cases hahead
      exact hbehind
  | cons p front ih =>
    constructor
    · intro h
      rw [List.cons_append] at h
      cases h with
      | delimiter h =>
        obtain ⟨ahead, behind, hahead, hbehind, rfl⟩ := ih.mp h
        exact ⟨_, behind, .delimiter hahead, hbehind, rfl⟩
      | text s h =>
        obtain ⟨ahead, behind, hahead, hbehind, rfl⟩ := ih.mp h
        exact ⟨_, behind, .text s hahead, hbehind, rfl⟩
      | var v h =>
        obtain ⟨ahead, behind, hahead, hbehind, rfl⟩ := ih.mp h
        exact ⟨_, behind, .var v hahead, hbehind, rfl⟩
      | drop inner h =>
        obtain ⟨ahead, behind, hahead, hbehind, rfl⟩ := ih.mp h
        exact ⟨ahead, behind, .drop inner hahead, hbehind, rfl⟩
      | keep hinner h =>
        obtain ⟨ahead, behind, hahead, hbehind, rfl⟩ := ih.mp h
        exact ⟨_, behind, .keep hinner hahead, hbehind, (List.append_assoc _ _ _).symm⟩
    · intro h
      obtain ⟨ahead, behind, hahead, hbehind, rfl⟩ := h
      cases hahead with
      | delimiter hahead => exact .delimiter (ih.mpr ⟨_, behind, hahead, hbehind, rfl⟩)
      | text s hahead => exact .text s (ih.mpr ⟨_, behind, hahead, hbehind, rfl⟩)
      | var v hahead => exact .var v (ih.mpr ⟨_, behind, hahead, hbehind, rfl⟩)
      | drop inner hahead => exact .drop inner (ih.mpr ⟨ahead, behind, hahead, hbehind, rfl⟩)
      | keep hinner hahead =>
        rw [List.append_assoc]
        exact .keep hinner (ih.mpr ⟨_, behind, hahead, hbehind, rfl⟩)

theorem cutForm_delimiter (ahead behind : List FormPiece) :
    cutForm (ahead ++ .delimiter :: behind) = cutForm ahead ++ cutForm behind := by
  induction ahead with
  | nil => rfl
  | cons piece ahead ih =>
    cases piece with
    | delimiter => exact congrArg ([] :: ·) ih
    | part p =>
      rw [List.cons_append, cutForm, cutForm, ih]
      cases hcut : cutForm ahead with
      | nil => exact absurd hcut (cutForm_ne_nil ahead)
      | cons segment segments => rfl

theorem segmentsOf_delimiter (ahead behind : List FormPiece) :
    segmentsOf (ahead ++ .delimiter :: behind) = segmentsOf ahead ++ segmentsOf behind := by
  rw [segmentsOf, cutForm_delimiter, List.filter_append]
  rfl

/-! ## Rows that end cut -/

/-- A row of parts is empty or ends with a delimiter, but for optional parts behind, which end with
delimiters of their own. -/
inductive EndsCut {ν : Type} : List (Part ν) → Prop
  | nil : EndsCut []
  | delimiter (front : List (Part ν)) : EndsCut (front ++ [.delimiter])
  | optional {front : List (Part ν)} (inner : List (Part ν)) (h : EndsCut front) :
    EndsCut (front ++ [.optional (inner ++ [.delimiter])])

/-- A form is empty or ends with a delimiter. -/
def FormEndsCut (form : List FormPiece) : Prop := form = [] ∨ ∃ ahead, form = ahead ++ [.delimiter]

theorem FormEndsCut.segmentsOf_append {ahead : List FormPiece} (h : FormEndsCut ahead)
    (behind : List FormPiece) : segmentsOf (ahead ++ behind) = segmentsOf ahead ++ segmentsOf behind := by
  rcases h with rfl | ⟨ahead, rfl⟩
  · rfl
  · have hahead : segmentsOf (ahead ++ [.delimiter]) = segmentsOf ahead :=
      (segmentsOf_delimiter ahead []).trans (List.append_nil _)
    rw [hahead, List.append_assoc]
    exact segmentsOf_delimiter ahead behind

theorem kept_delimiter {form : List FormPiece} (h : Kept [.delimiter] form) : form = [.delimiter] := by
  cases h with
  | delimiter h =>
    cases h
    rfl

theorem EndsCut.form {parts : List (Part Variable)} (h : EndsCut parts) {form : List FormPiece}
    (hform : Kept parts form) : FormEndsCut form := by
  induction h generalizing form with
  | nil =>
    cases hform
    exact Or.inl rfl
  | delimiter front =>
    obtain ⟨ahead, behind, -, hbehind, rfl⟩ := kept_append.mp hform
    rw [kept_delimiter hbehind]
    exact Or.inr ⟨ahead, rfl⟩
  | @optional front inner h ih =>
    obtain ⟨ahead, behind, hahead, hbehind, rfl⟩ := kept_append.mp hform
    cases hbehind with
    | drop _ hnil =>
      cases hnil
      rw [List.append_nil]
      exact ih hahead
    | keep hinner hnil =>
      cases hnil
      obtain ⟨here, last, -, hlast, rfl⟩ := kept_append.mp hinner
      rw [kept_delimiter hlast]
      exact Or.inr ⟨ahead ++ here, by simp⟩

/-! ## Rules -/

namespace Compiler

variable {c : Compiler}

theorem resolve_cons_of_ok {p : Part Slot} {p' : Part Variable} {rest : List (Part Slot)}
    {rest' : List (Part Variable)} {forms n count : Nat} (hp : c.resolvePart forms p = .ok (p', n))
    (hrest : c.resolve n rest = .ok (rest', count)) :
    c.resolve forms (p :: rest) = .ok (p' :: rest', count) := by
  rw [resolve, hp]
  dsimp only
  rw [hrest]

theorem resolve_append_ok {front back : List (Part Slot)} {forms count : Nat}
    {resolved : List (Part Variable)} (h : c.resolve forms (front ++ back) = .ok (resolved, count)) :
    ∃ ahead n behind, c.resolve forms front = .ok (ahead, n) ∧ c.resolve n back = .ok (behind, count) ∧
      resolved = ahead ++ behind := by
  induction front generalizing forms resolved with
  | nil => exact ⟨[], forms, resolved, rfl, h, rfl⟩
  | cons p front ih =>
    obtain ⟨p', n, rest, hp, hrest, rfl⟩ := resolve_cons_ok h
    obtain ⟨ahead, n', behind, hahead, hbehind, rfl⟩ := ih hrest
    exact ⟨p' :: ahead, n', behind, resolve_cons_of_ok hp hahead, hbehind, rfl⟩

/-- The rules that are found do not depend on the forms before. -/
theorem resolve_eq {parts : List (Part Slot)} {forms forms' count count' : Nat}
    {resolved resolved' : List (Part Variable)} (h : c.resolve forms parts = .ok (resolved, count))
    (h' : c.resolve forms' parts = .ok (resolved', count')) : resolved = resolved' := by
  induction parts using Part.rows_induction generalizing forms forms' count count' resolved resolved' with
  | nil =>
    cases h
    cases h'
    rfl
  | delimiter rest ih =>
    obtain ⟨p, n, tail, hp, htail, rfl⟩ := resolve_cons_ok h
    obtain ⟨p', n', tail', hp', htail', rfl⟩ := resolve_cons_ok h'
    cases hp
    cases hp'
    rw [ih htail htail']
  | text s rest ih =>
    obtain ⟨p, n, tail, hp, htail, rfl⟩ := resolve_cons_ok h
    obtain ⟨p', n', tail', hp', htail', rfl⟩ := resolve_cons_ok h'
    cases hp
    cases hp'
    rw [ih htail htail']
  | var slot rest ih =>
    obtain ⟨p, n, tail, hp, htail, rfl⟩ := resolve_cons_ok h
    obtain ⟨p', n', tail', hp', htail', rfl⟩ := resolve_cons_ok h'
    obtain ⟨v, hslot, rfl⟩ := resolvePart_var_ok hp
    obtain ⟨v', hslot', rfl⟩ := resolvePart_var_ok hp'
    rw [ih htail htail', Except.ok.inj (hslot.symm.trans hslot')]
  | optional inner rest ihinner ih =>
    obtain ⟨p, n, tail, hp, htail, rfl⟩ := resolve_cons_ok h
    obtain ⟨p', n', tail', hp', htail', rfl⟩ := resolve_cons_ok h'
    obtain ⟨inside, longer, hinner, rfl⟩ := resolvePart_optional_ok hp
    obtain ⟨inside', longer', hinner', rfl⟩ := resolvePart_optional_ok hp'
    rw [ih htail htail', ihinner hinner hinner']

/-- What is found behind some forms is found behind fewer. -/
theorem resolve_mono {parts : List (Part Slot)} {forms forms' count : Nat}
    {resolved : List (Part Variable)} (hle : forms' ≤ forms)
    (h : c.resolve forms parts = .ok (resolved, count)) :
    ∃ count', count' ≤ count ∧ c.resolve forms' parts = .ok (resolved, count') := by
  induction parts using Part.rows_induction generalizing forms forms' count resolved with
  | nil =>
    cases h
    exact ⟨forms', hle, rfl⟩
  | delimiter rest ih =>
    obtain ⟨p, n, tail, hp, htail, rfl⟩ := resolve_cons_ok h
    cases hp
    obtain ⟨count', hcount, htail⟩ := ih hle htail
    exact ⟨count', hcount, resolve_cons_of_ok rfl htail⟩
  | text s rest ih =>
    obtain ⟨p, n, tail, hp, htail, rfl⟩ := resolve_cons_ok h
    cases hp
    obtain ⟨count', hcount, htail⟩ := ih hle htail
    exact ⟨count', hcount, resolve_cons_of_ok rfl htail⟩
  | var slot rest ih =>
    obtain ⟨p, n, tail, hp, htail, rfl⟩ := resolve_cons_ok h
    rw [resolvePart_var_count hp] at htail
    obtain ⟨v, hslot, rfl⟩ := resolvePart_var_ok hp
    obtain ⟨count', hcount, htail⟩ := ih hle htail
    refine ⟨count', hcount, resolve_cons_of_ok ?_ htail⟩
    rw [resolvePart, hslot]
  | optional inner rest ihinner ih =>
    obtain ⟨p, n, tail, hp, htail, rfl⟩ := resolve_cons_ok h
    obtain ⟨inside, longer, hinner, rfl, rfl, hlimit⟩ := resolvePart_optional_cases hp
    obtain ⟨longer', hlonger, hinner⟩ := ihinner hle hinner
    obtain ⟨count', hcount, htail⟩ := ih (Nat.add_le_add hle hlonger) htail
    refine ⟨count', hcount, resolve_cons_of_ok ?_ htail⟩
    rw [resolvePart, hinner]
    exact if_neg (by omega)

/-- Forms are never fewer behind a row. -/
theorem le_of_resolve {parts : List (Part Slot)} {forms count : Nat} {resolved : List (Part Variable)}
    (h : c.resolve forms parts = .ok (resolved, count)) : forms ≤ count := by
  obtain ⟨form, hform⟩ := exists_kept resolved
  rw [resolve_length h]
  exact Nat.le_mul_of_pos_right forms (List.length_pos_of_mem (mem_formsOf.mpr hform))

theorem resolve_endsCut {parts : List (Part Slot)} (h : EndsCut parts) {forms count : Nat}
    {resolved : List (Part Variable)} (hresolve : c.resolve forms parts = .ok (resolved, count)) :
    EndsCut resolved := by
  induction h generalizing forms count resolved with
  | nil =>
    cases hresolve
    exact .nil
  | delimiter front =>
    obtain ⟨ahead, n, behind, -, hbehind, rfl⟩ := resolve_append_ok hresolve
    cases hbehind
    exact .delimiter ahead
  | @optional front inner h ih =>
    obtain ⟨ahead, n, behind, hahead, hbehind, rfl⟩ := resolve_append_ok hresolve
    obtain ⟨p, n', rest, hp, hrest, rfl⟩ := resolve_cons_ok hbehind
    cases hrest
    obtain ⟨inside, longer, hinside, rfl⟩ := resolvePart_optional_ok hp
    obtain ⟨here, n', last, -, hlast, rfl⟩ := resolve_append_ok hinside
    cases hlast
    exact .optional here (ih hahead)

/-! ## Rows of keys -/

theorem mapM_append_ok {α γ ε : Type} {f : α → Except ε γ} {front back : List α} {results : List γ}
    (h : (front ++ back).mapM f = .ok results) :
    ∃ ahead behind, front.mapM f = .ok ahead ∧ back.mapM f = .ok behind ∧ results = ahead ++ behind := by
  rw [List.mapM_append] at h
  obtain ⟨ahead, hahead, h⟩ := except_bind_ok h
  obtain ⟨behind, hbehind, h⟩ := except_bind_ok h
  exact ⟨ahead, behind, hahead, hbehind, (Except.ok.inj h).symm⟩

/-- The keys of a form whose segments are those of two forms, one after the other. -/
theorem keysOf_append {side : Side} {ahead behind form : List FormPiece} {row : List Key}
    (h : c.keysOf side form = .ok row)
    (hsegments : segmentsOf form = segmentsOf ahead ++ segmentsOf behind) :
    ∃ front back, c.keysOf side ahead = .ok front ∧ c.keysOf side behind = .ok back ∧
      row = front ++ back := by
  unfold keysOf at h
  dsimp only at h
  split at h
  · cases h
  · next hlimit =>
    rw [hsegments] at h hlimit
    rw [List.length_append] at hlimit
    obtain ⟨front, back, hfront, hback, rfl⟩ := mapM_append_ok h
    refine ⟨front, back, ?_, ?_, rfl⟩
    · unfold keysOf
      dsimp only
      rw [if_neg (by omega), hfront]
    · unfold keysOf
      dsimp only
      rw [if_neg (by omega), hback]

end Compiler

/-- What stands between two rows of parts and cuts the first one off. -/
inductive Seam : List (Part Slot) → List (Part Slot) → Prop
  | delimiter (front : List (Part Slot)) : Seam front [.delimiter]
  | none {front : List (Part Slot)} (h : EndsCut front) : Seam front []

namespace Compiler

variable {c : Compiler}

theorem segmentsOf_seam {front between : List (Part Slot)} (h : Seam front between) {n n' : Nat}
    {ahead mid : List (Part Variable)} (hahead : c.resolve 1 front = .ok (ahead, n))
    (hmid : c.resolve n between = .ok (mid, n')) {a m : List FormPiece} (ha : Kept ahead a)
    (hm : Kept mid m) (b : List FormPiece) :
    segmentsOf (a ++ (m ++ b)) = segmentsOf a ++ segmentsOf b := by
  cases h with
  | delimiter =>
    cases hmid
    rw [kept_delimiter hm]
    exact segmentsOf_delimiter a b
  | none h =>
    cases hmid
    cases hm
    exact ((resolve_endsCut h hahead).form ha).segmentsOf_append b

section

variable {side : Side} {front between back : List (Part Slot)} {rows : List (List Key)}

/-- A form of each row, with a seam between them, makes a row of keys out of those of the two. -/
theorem exists_row_of_seam (h : Seam front between) {n n' : Nat} {ahead mid behind : List (Part Variable)}
    (hahead : c.resolve 1 front = .ok (ahead, n)) (hmid : c.resolve n between = .ok (mid, n'))
    (hforms : (formsOf (ahead ++ (mid ++ behind))).mapM (c.keysOf side) = .ok rows) {a b : List FormPiece}
    (ha : Kept ahead a) (hb : Kept behind b) : ∃ front' back', c.keysOf side a = .ok front' ∧
      c.keysOf side b = .ok back' ∧ front' ++ back' ∈ rows := by
  obtain ⟨m, hm⟩ := exists_kept mid
  have hform : Kept (ahead ++ (mid ++ behind)) (a ++ (m ++ b)) :=
    kept_append.mpr ⟨a, m ++ b, ha, kept_append.mpr ⟨m, b, hm, hb, rfl⟩, rfl⟩
  obtain ⟨row, hrow, hjoined⟩ := exists_of_mapM_ok hforms (mem_formsOf.mpr hform)
  obtain ⟨front', back', hfront, hback, rfl⟩ :=
    keysOf_append hjoined (segmentsOf_seam h hahead hmid ha hm b)
  exact ⟨front', back', hfront, hback, hrow⟩

/-- Rows of parts with a seam between them can be expanded only if each of them can. -/
theorem exists_expand_seam (h : Seam front between)
    (hrows : c.expand side (front ++ (between ++ back)) = .ok rows) :
    ∃ fronts backs, c.expand side front = .ok fronts ∧ c.expand side back = .ok backs := by
  obtain ⟨all, count, hall, hforms⟩ := expand_resolves hrows
  obtain ⟨ahead, n, rest, hahead, hrest, rfl⟩ := resolve_append_ok hall
  obtain ⟨mid, n', behind, hmid, hbehind, rfl⟩ := resolve_append_ok hrest
  obtain ⟨count', -, hbehind⟩ :=
    resolve_mono ((le_of_resolve hahead).trans (le_of_resolve hmid)) hbehind
  obtain ⟨a, ha⟩ := exists_kept ahead
  obtain ⟨b, hb⟩ := exists_kept behind
  obtain ⟨fronts, hfronts⟩ : ∃ fronts, (formsOf ahead).mapM (c.keysOf side) = .ok fronts := by
    refine exists_mapM_ok fun a ha => ?_
    obtain ⟨front', -, hfront, -⟩ := exists_row_of_seam h hahead hmid hforms (mem_formsOf.mp ha) hb
    exact ⟨front', hfront⟩
  obtain ⟨backs, hbacks⟩ : ∃ backs, (formsOf behind).mapM (c.keysOf side) = .ok backs := by
    refine exists_mapM_ok fun b hb => ?_
    obtain ⟨-, back', -, hback, -⟩ := exists_row_of_seam h hahead hmid hforms ha (mem_formsOf.mp hb)
    exact ⟨back', hback⟩
  refine ⟨fronts, backs, ?_, ?_⟩
  · rw [expand_eq, hahead]
    exact hfronts
  · rw [expand_eq, hbehind]
    exact hbacks

/-- Two rows of parts with a seam between them stand for the rows of keys of the first followed by those
of the second. -/
theorem mem_expand_seam (h : Seam front between) {fronts backs : List (List Key)}
    (hfronts : c.expand side front = .ok fronts) (hbacks : c.expand side back = .ok backs)
    (hrows : c.expand side (front ++ (between ++ back)) = .ok rows) {row : List Key} :
    row ∈ rows ↔ ∃ a ∈ fronts, ∃ b ∈ backs, row = a ++ b := by
  obtain ⟨all, count, hall, hforms⟩ := expand_resolves hrows
  obtain ⟨ahead, n, rest, hahead, hrest, rfl⟩ := resolve_append_ok hall
  obtain ⟨mid, n', behind, hmid, hbehind, rfl⟩ := resolve_append_ok hrest
  constructor
  · intro hrow
    obtain ⟨form, hform, hkeys⟩ := (mem_of_mapM_ok hforms).mp hrow
    obtain ⟨a, rest, ha, hrest, rfl⟩ := kept_append.mp (mem_formsOf.mp hform)
    obtain ⟨m, b, hm, hb, rfl⟩ := kept_append.mp hrest
    obtain ⟨front', back', hfront', hback', rfl⟩ :=
      keysOf_append hkeys (segmentsOf_seam h hahead hmid ha hm b)
    obtain ⟨behind', count', hbehind', -⟩ := expand_resolves hbacks
    rw [resolve_eq hbehind hbehind'] at hb
    exact ⟨front', (mem_expand hfronts).mpr ⟨ahead, n, a, hahead, ha, hfront'⟩,
      back', (mem_expand hbacks).mpr ⟨behind', count', b, hbehind', hb, hback'⟩, rfl⟩
  · intro hrow
    obtain ⟨front', hfront', back', hback', rfl⟩ := hrow
    obtain ⟨ahead', n₁, a, hahead', ha, hkeys⟩ := (mem_expand hfronts).mp hfront'
    obtain ⟨behind', n₂, b, hbehind', hb, hkeys'⟩ := (mem_expand hbacks).mp hback'
    rw [resolve_eq hahead' hahead] at ha
    rw [resolve_eq hbehind' hbehind] at hb
    obtain ⟨front, back, hfront, hback, hrow⟩ := exists_row_of_seam h hahead hmid hforms ha hb
    rw [Except.ok.inj (hkeys.symm.trans hfront), Except.ok.inj (hkeys'.symm.trans hback)]
    exact hrow

end

end Compiler

end UriRouting
