import UriRouting.Trie.Compile
/-!
What expanding a row of parts comes to.

Expanding keeps a list of forms in the making and goes through the row part by part. The same is said
here in steps that do not depend on each other: `Compiler.resolve` finds the rules of the variables and
counts the forms, `formsOf` makes for each way to keep or drop the optional parts the row of pieces that
is kept, and `segmentsOf` cuts it. `Compiler.expandRow_eq` and `segments_extend` bring the two together.
-/

namespace UriRouting

namespace Compiler

mutual

/-- Finds the rules of a part that follows `forms` forms, and counts the forms after it. -/
def resolvePart (c : Compiler) (forms : Nat) :
    Part Slot → Except CompileError (Part Variable × Nat)
  | .delimiter => .ok (.delimiter, forms)
  | .text s => .ok (.text s, forms)
  | .var slot =>
    match c.variableOf slot with
    | .ok v => .ok (.var v, forms)
    | .error e => .error e
  | .optional parts =>
    match c.resolve forms parts with
    | .ok (parts, longer) =>
      if c.config.maxTemplateAlternatives < forms + longer then
        .error (.tooManyAlternatives c.config.maxTemplateAlternatives)
      else .ok (.optional parts, forms + longer)
    | .error e => .error e

/-- Finds the rules of a row of parts that follows `forms` forms, and counts the forms after it. -/
def resolve (c : Compiler) (forms : Nat) :
    List (Part Slot) → Except CompileError (List (Part Variable) × Nat)
  | [] => .ok ([], forms)
  | p :: rest =>
    match c.resolvePart forms p with
    | .ok (p, forms) =>
      match c.resolve forms rest with
      | .ok (rest, forms) => .ok (p :: rest, forms)
      | .error e => .error e
    | .error e => .error e

end

end Compiler

/-! ## Forms -/

inductive FormPiece
  | delimiter
  | part (p : SegmentPart)

mutual

/-- The ways to keep or drop what is optional in a part. -/
def formsOfPart : Part Variable → List (List FormPiece)
  | .delimiter => [[.delimiter]]
  | .text s => [[.part (.literal s)]]
  | .var v => [[.part (.var v)]]
  | .optional parts => [] :: formsOf parts

/-- The ways to keep or drop the optional parts of a row. Of two parts the later one changes
slower. -/
def formsOf : List (Part Variable) → List (List FormPiece)
  | [] => [[]]
  | p :: rest => (formsOf rest).flatMap fun later => (formsOfPart p).map (· ++ later)

end

def cutForm : List FormPiece → List (List SegmentPart)
  | [] => [[]]
  | .delimiter :: rest => [] :: cutForm rest
  | .part p :: rest =>
    match cutForm rest with
    | [] => [[p]]
    | segment :: segments => (p :: segment) :: segments

def segmentsOf (form : List FormPiece) : List (List SegmentPart) :=
  (cutForm form).filter (!·.isEmpty)

namespace Compiler

def keysOf (c : Compiler) (side : Side) (form : List FormPiece) : Except CompileError (List Key) :=
  let segments := segmentsOf form
  if c.config.maxSegments < segments.length then .error (.tooManySegments c.config.maxSegments)
  else segments.mapM (keyOf side)

end Compiler

/-! ## Segments of a form in the making -/

namespace Form

/-- A form behind which the pieces of another one are put. -/
def extend (f : Form) : List FormPiece → Form
  | [] => f
  | .delimiter :: rest => f.cut.extend rest
  | .part p :: rest => (f.push p).extend rest

theorem extend_append (f : Form) (here later : List FormPiece) :
    f.extend (here ++ later) = (f.extend here).extend later := by
  induction here generalizing f with
  | nil => rfl
  | cons piece here ih => cases piece <;> exact ih _

end Form

theorem cutForm_ne_nil (form : List FormPiece) : cutForm form ≠ [] := by
  cases form with
  | nil => exact List.cons_ne_nil _ _
  | cons piece rest =>
    cases piece with
    | delimiter => exact List.cons_ne_nil _ _
    | part p =>
      rw [cutForm]
      split <;> exact List.cons_ne_nil _ _

/-- Pieces begin a segment behind an open form. Behind any other one, those up to the first delimiter
go on with its last segment. -/
theorem segments_extend_cases (form : List FormPiece) :
    (∀ f : Form, f.isOpen = true → (f.extend form).segments = f.segments ++ segmentsOf form) ∧
    ∀ front last, ∃ first rest, cutForm form = first :: rest ∧
      (Form.extend ⟨front ++ [last], false⟩ form).segments
        = front ++ (last ++ first) :: rest.filter (!·.isEmpty) := by
  induction form with
  | nil =>
    refine ⟨fun f _ => (List.append_nil _).symm, fun front last => ⟨[], [], rfl, ?_⟩⟩
    simp [Form.extend]
  | cons piece form ih =>
    obtain ⟨hopen, hclosed⟩ := ih
    cases piece with
    | delimiter =>
      refine ⟨fun f _ => hopen f.cut rfl, fun front last => ⟨[], cutForm form, rfl, ?_⟩⟩
      have hcut := hopen (Form.cut ⟨front ++ [last], false⟩) rfl
      rw [Form.extend, hcut]
      simp [Form.cut, segmentsOf]
    | part p =>
      constructor
      · intro f hf
        obtain ⟨first, rest, hcut, hsegments⟩ := hclosed f.segments [p]
        have hpush : f.push p = ⟨f.segments ++ [[p]], false⟩ := by rw [Form.push, hf]; rfl
        rw [Form.extend, hpush, hsegments]
        simp [segmentsOf, cutForm, hcut]
      · intro front last
        obtain ⟨first, rest, hcut, hsegments⟩ := hclosed front (last ++ [p])
        have hpush : Form.push p ⟨front ++ [last], false⟩ = ⟨front ++ [last ++ [p]], false⟩ := by
          simp [Form.push]
        refine ⟨p :: first, rest, by rw [cutForm, hcut], ?_⟩
        rw [Form.extend, hpush, hsegments, List.append_assoc, List.singleton_append]

theorem segments_extend (form : List FormPiece) : (Form.start.extend form).segments = segmentsOf form :=
  (segments_extend_cases form).1 .start rfl

/-! ## Forms behind forms -/

/-- Each of several forms, extended in each of several ways. -/
def extendAll (forms : List Form) (ways : List (List FormPiece)) : List Form :=
  ways.flatMap fun way => forms.map (·.extend way)

theorem length_extendAll (forms : List Form) (ways : List (List FormPiece)) :
    (extendAll forms ways).length = forms.length * ways.length := by
  simp [extendAll, List.length_flatMap, List.map_const', Nat.mul_comm]

theorem extendAll_cons (forms : List Form) (p : Part Variable) (rest : List (Part Variable)) :
    extendAll forms (formsOf (p :: rest)) = extendAll (extendAll forms (formsOfPart p)) (formsOf rest) := by
  simp only [extendAll, formsOf, List.flatMap_assoc, List.flatMap_map, List.map_flatMap, List.map_map]
  congr 1
  funext later
  congr 1
  funext here
  simp [Form.extend_append, Function.comp_def]

/-- Behind an optional part there are the forms without it, then those with it. -/
theorem extendAll_optional (forms : List Form) (parts : List (Part Variable)) :
    extendAll forms (formsOfPart (.optional parts)) = forms ++ extendAll forms (formsOf parts) := by
  simp [extendAll, formsOfPart, Form.extend]

theorem length_formsOf_cons (p : Part Variable) (rest : List (Part Variable)) :
    (formsOf (p :: rest)).length = (formsOfPart p).length * (formsOf rest).length := by
  simp [formsOf, List.length_flatMap, List.map_const', Nat.mul_comm]

namespace Compiler

theorem resolve_cons_ok {c : Compiler} {forms count : Nat} {p : Part Slot} {rest : List (Part Slot)}
    {resolved : List (Part Variable)} (h : c.resolve forms (p :: rest) = .ok (resolved, count)) :
    ∃ p' n rest', c.resolvePart forms p = .ok (p', n) ∧ c.resolve n rest = .ok (rest', count) ∧
      resolved = p' :: rest' := by
  rw [resolve] at h
  cases hp : c.resolvePart forms p with
  | error e =>
    rw [hp] at h
    cases h
  | ok head =>
    obtain ⟨p', n⟩ := head
    rw [hp] at h
    dsimp only at h
    cases hrest : c.resolve n rest with
    | error e =>
      rw [hrest] at h
      cases h
    | ok tail =>
      obtain ⟨rest', n'⟩ := tail
      rw [hrest] at h
      cases h
      exact ⟨p', n, rest', rfl, hrest, rfl⟩

theorem resolvePart_var_ok {c : Compiler} {forms count : Nat} {slot : Slot} {p : Part Variable}
    (h : c.resolvePart forms (.var slot) = .ok (p, count)) :
    ∃ v, c.variableOf slot = .ok v ∧ p = .var v := by
  rw [resolvePart] at h
  cases hslot : c.variableOf slot with
  | error e =>
    rw [hslot] at h
    cases h
  | ok v =>
    rw [hslot] at h
    cases h
    exact ⟨v, rfl, rfl⟩

/-- An optional part is kept in as many forms as it has behind those of before, and the limit bounds
them all. -/
theorem resolvePart_optional_cases {c : Compiler} {forms count : Nat} {inner : List (Part Slot)}
    {p : Part Variable} (h : c.resolvePart forms (.optional inner) = .ok (p, count)) :
    ∃ resolved longer, c.resolve forms inner = .ok (resolved, longer) ∧ p = .optional resolved ∧
      count = forms + longer ∧ count ≤ c.config.maxTemplateAlternatives := by
  rw [resolvePart] at h
  cases hinner : c.resolve forms inner with
  | error e =>
    rw [hinner] at h
    cases h
  | ok inside =>
    obtain ⟨resolved, longer⟩ := inside
    rw [hinner] at h
    dsimp only at h
    split at h
    · cases h
    · next hle =>
      cases h
      exact ⟨resolved, longer, rfl, rfl, rfl, Nat.le_of_not_lt hle⟩

theorem resolvePart_optional_ok {c : Compiler} {forms count : Nat} {inner : List (Part Slot)}
    {p : Part Variable} (h : c.resolvePart forms (.optional inner) = .ok (p, count)) :
    ∃ resolved longer, c.resolve forms inner = .ok (resolved, longer) ∧ p = .optional resolved := by
  obtain ⟨resolved, longer, hinner, hp, -⟩ := resolvePart_optional_cases h
  exact ⟨resolved, longer, hinner, hp⟩

theorem resolvePart_var_count {c : Compiler} {forms count : Nat} {slot : Slot} {p : Part Variable}
    (h : c.resolvePart forms (.var slot) = .ok (p, count)) : count = forms := by
  rw [resolvePart] at h
  split at h
  · cases h
    rfl
  · cases h

/-- The count that is kept is that of the forms: each of those before in each way of the row. -/
theorem resolve_length {c : Compiler} {forms count : Nat} {parts : List (Part Slot)}
    {resolved : List (Part Variable)} (h : c.resolve forms parts = .ok (resolved, count)) :
    count = forms * (formsOf resolved).length := by
  induction parts using Part.rows_induction generalizing forms count resolved with
  | nil =>
    cases h
    exact (Nat.mul_one _).symm
  | delimiter rest ih =>
    obtain ⟨p', n, rest', hp, hrest, rfl⟩ := resolve_cons_ok h
    cases hp
    simpa [length_formsOf_cons, formsOfPart] using ih hrest
  | text s rest ih =>
    obtain ⟨p', n, rest', hp, hrest, rfl⟩ := resolve_cons_ok h
    cases hp
    simpa [length_formsOf_cons, formsOfPart] using ih hrest
  | var slot rest ih =>
    obtain ⟨p', n, rest', hp, hrest, rfl⟩ := resolve_cons_ok h
    rw [resolvePart_var_count hp] at hrest
    obtain ⟨v, -, rfl⟩ := resolvePart_var_ok hp
    simpa [length_formsOf_cons, formsOfPart] using ih hrest
  | optional inner rest ihinner ih =>
    obtain ⟨p', n, rest', hp, hrest, rfl⟩ := resolve_cons_ok h
    obtain ⟨inner', longer, hinner, rfl, rfl, -⟩ := resolvePart_optional_cases hp
    rw [ih hrest, ihinner hinner, length_formsOf_cons, formsOfPart, List.length_cons, ← Nat.mul_assoc,
      Nat.mul_succ, Nat.add_comm forms]

/-- A part extends the forms in its ways, and the count is that of the forms behind it. -/
theorem expandRow_cons {c : Compiler} {forms : List Form} {p : Part Slot} {rest : List (Part Slot)}
    (hpart : c.expandPart forms p
      = (c.resolvePart forms.length p).map fun r => extendAll forms (formsOfPart r.1))
    (hcount : ∀ p' n, c.resolvePart forms.length p = .ok (p', n) →
      n = forms.length * (formsOfPart p').length)
    (hrest : ∀ forms, c.expandRow forms rest
      = (c.resolve forms.length rest).map fun r => extendAll forms (formsOf r.1)) :
    c.expandRow forms (p :: rest)
      = (c.resolve forms.length (p :: rest)).map fun r => extendAll forms (formsOf r.1) := by
  rw [expandRow, hpart, resolve]
  cases hp : c.resolvePart forms.length p with
  | error e => rfl
  | ok head =>
    obtain ⟨p', n⟩ := head
    have hn : n = (extendAll forms (formsOfPart p')).length := by
      rw [length_extendAll, hcount p' n hp]
    simp only [Except.map]
    rw [hrest, ← hn]
    cases c.resolve n rest with
    | error e => rfl
    | ok tail => exact congrArg Except.ok (extendAll_cons forms p' tail.1).symm

/-- Expanding finds the same rules, or the same first error, and extends the forms in every way. -/
theorem expandRow_eq (c : Compiler) (forms : List Form) (parts : List (Part Slot)) :
    c.expandRow forms parts
      = (c.resolve forms.length parts).map fun r => extendAll forms (formsOf r.1) := by
  induction parts using Part.rows_induction generalizing forms with
  | nil => simp [expandRow, resolve, Except.map, extendAll, formsOf, Form.extend]
  | delimiter rest ih =>
    refine expandRow_cons ?_ (fun p' n hp => ?_) ih
    · simp [expandPart, resolvePart, Except.map, extendAll, formsOfPart, Form.extend]
    · cases hp
      exact (Nat.mul_one _).symm
  | text s rest ih =>
    refine expandRow_cons ?_ (fun p' n hp => ?_) ih
    · simp [expandPart, resolvePart, Except.map, extendAll, formsOfPart, Form.extend]
    · cases hp
      exact (Nat.mul_one _).symm
  | var slot rest ih =>
    refine expandRow_cons ?_ (fun p' n hp => ?_) ih
    · rw [expandPart, resolvePart]
      cases c.variableOf slot with
      | error e => rfl
      | ok v => simp [Except.map, extendAll, formsOfPart, Form.extend]
    · obtain ⟨v, -, rfl⟩ := resolvePart_var_ok hp
      rw [resolvePart_var_count hp]
      exact (Nat.mul_one _).symm
  | optional inner rest ihinner ih =>
    refine expandRow_cons ?_ (fun p' n hp => ?_) ih
    · rw [expandPart, resolvePart, ihinner]
      cases hinner : c.resolve forms.length inner with
      | error e => rfl
      | ok inside =>
        obtain ⟨resolved, longer⟩ := inside
        -- The count that the limit is held against is the length of the list.
        have hlength : (forms ++ extendAll forms (formsOf resolved)).length = forms.length + longer := by
          rw [List.length_append, length_extendAll, resolve_length hinner]
        simp only [Except.map, hlength]
        split
        · rfl
        · exact congrArg Except.ok (extendAll_optional forms resolved).symm
    · obtain ⟨resolved, longer, hinner, rfl, rfl, -⟩ := resolvePart_optional_cases hp
      rw [resolve_length hinner, formsOfPart, List.length_cons, Nat.mul_succ, Nat.add_comm]

theorem keysOfForm_extend (c : Compiler) (side : Side) (form : List FormPiece) :
    c.keysOfForm side (Form.start.extend form) = c.keysOf side form := by
  rw [keysOfForm, keysOf, segments_extend]

theorem expand_eq (c : Compiler) (side : Side) (parts : List (Part Slot)) :
    c.expand side parts = match c.resolve 1 parts with
      | .ok (parts, _) => (formsOf parts).mapM (c.keysOf side)
      | .error e => .error e := by
  have hrow := c.expandRow_eq [.start] parts
  rw [List.length_singleton] at hrow
  rw [expand, hrow]
  cases c.resolve 1 parts with
  | error e => rfl
  | ok r =>
    have hforms : extendAll [.start] (formsOf r.1) = (formsOf r.1).map Form.start.extend :=
      List.map_eq_flatMap.symm
    show (extendAll [.start] (formsOf r.1)).mapM (c.keysOfForm side) = (formsOf r.1).mapM (c.keysOf side)
    rw [hforms, List.mapM_map]
    congr 1
    funext form
    exact c.keysOfForm_extend side form

end Compiler

end UriRouting
