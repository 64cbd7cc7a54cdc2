import UriRouting.Proofs.Template.Slots
import UriRouting.Proofs.Trie.Expansion
import UriRouting.Proofs.Trie.Keys
import UriRouting.Router.Basic
/-!
Which rows of keys a template stands for.

`Kept` chooses for each optional part whether it is kept, and `formsOf` makes every choice. Compiling
finds the rules of the variables, makes the forms and turns each into a row of keys; `mem_expand` says
so without the lists in between. The rules in the keys are those of the factory.
-/

namespace UriRouting

theorem mem_of_mapM_ok {α γ ε : Type} {f : α → Except ε γ} {as : List α} {bs : List γ}
    (h : as.mapM f = .ok bs) {b : γ} : b ∈ bs ↔ ∃ a ∈ as, f a = .ok b := by
  induction as generalizing bs with
  | nil =>
    cases h
    simp
  | cons a as ih =>
    rw [List.mapM_cons] at h
    cases ha : f a with
    | error e =>
      rw [ha] at h
      cases h
    | ok b' =>
      cases has : as.mapM f with
      | error e =>
        rw [ha, has] at h
        cases h
      | ok bs' =>
        rw [ha, has] at h
        cases h
        simp [ih has, ha, eq_comm]

/-! ## Forms -/

/-- A form of a row of parts: each optional part is kept or dropped. -/
inductive Kept : List (Part Variable) → List FormPiece → Prop
  | nil : Kept [] []
  | delimiter {rest : List (Part Variable)} {form : List FormPiece} (h : Kept rest form) :
    Kept (.delimiter :: rest) (.delimiter :: form)
  | text (s : String) {rest : List (Part Variable)} {form : List FormPiece} (h : Kept rest form) :
    Kept (.text s :: rest) (.part (.literal s) :: form)
  | var (v : Variable) {rest : List (Part Variable)} {form : List FormPiece} (h : Kept rest form) :
    Kept (.var v :: rest) (.part (.var v) :: form)
  | drop (inner : List (Part Variable)) {rest : List (Part Variable)} {form : List FormPiece}
    (h : Kept rest form) : Kept (.optional inner :: rest) form
  | keep {inner rest : List (Part Variable)} {here form : List FormPiece} (hinner : Kept inner here)
    (h : Kept rest form) : Kept (.optional inner :: rest) (here ++ form)

theorem exists_kept (parts : List (Part Variable)) : ∃ form, Kept parts form := by
  induction parts using Part.rows_induction with
  | nil => exact ⟨_, .nil⟩
  | delimiter rest ih => exact ih.imp' _ fun _ h => .delimiter h
  | text s rest ih => exact ih.imp' _ fun _ h => .text s h
  | var v rest ih => exact ih.imp' _ fun _ h => .var v h
  | optional inner rest ihinner ih => exact ih.imp' _ fun _ h => .drop inner h

theorem mem_formsOf_cons {p : Part Variable} {rest : List (Part Variable)} {form : List FormPiece} :
    form ∈ formsOf (p :: rest) ↔ ∃ later ∈ formsOf rest, ∃ here ∈ formsOfPart p, here ++ later = form := by
  simp only [formsOf, List.mem_flatMap, List.mem_map]

/-- The forms of a row are those that keep or drop its optional parts. -/
theorem mem_formsOf {parts : List (Part Variable)} {form : List FormPiece} :
    form ∈ formsOf parts ↔ Kept parts form := by
  induction parts using Part.rows_induction generalizing form with
  | nil =>
    rw [formsOf, List.mem_singleton]
    constructor
    · intro h
      subst h
      exact .nil
    · intro h
      cases h
      rfl
  | delimiter rest ih =>
    simp only [mem_formsOf_cons, formsOfPart, List.mem_singleton, exists_eq_left, ih]
    constructor
    · intro h
      obtain ⟨later, hlater, rfl⟩ := h
      exact .delimiter hlater
    · intro h
      cases h
      next form h => exact ⟨form, h, rfl⟩
  | text s rest ih =>
    simp only [mem_formsOf_cons, formsOfPart, List.mem_singleton, exists_eq_left, ih]
    constructor
    · intro h
      obtain ⟨later, hlater, rfl⟩ := h
      exact .text s hlater
    · intro h
      cases h
      next form h => exact ⟨form, h, rfl⟩
  | var v rest ih =>
    simp only [mem_formsOf_cons, formsOfPart, List.mem_singleton, exists_eq_left, ih]
    constructor
    · intro h
      obtain ⟨later, hlater, rfl⟩ := h
      exact .var v hlater
    · intro h
      cases h
      next form h => exact ⟨form, h, rfl⟩
  | optional inner rest ihinner ih =>
    simp only [mem_formsOf_cons, formsOfPart, List.mem_cons, ih, ihinner]
    constructor
    · intro h
      obtain ⟨later, hlater, here, rfl | hhere, rfl⟩ := h
      · exact .drop inner hlater
      · exact .keep hhere hlater
    · intro h
      cases h with
      | drop _ h => exact ⟨form, h, [], Or.inl rfl, rfl⟩
      | keep hinner h => exact ⟨_, h, _, Or.inr hinner, rfl⟩

/-! ## Rows of keys -/

namespace Compiler

/-- A row of keys is one that a row of parts stands for. -/
def Spells (c : Compiler) (side : Side) (parts : List (Part Slot)) (row : List Key) : Prop :=
  ∃ resolved count form,
    c.resolve 1 parts = .ok (resolved, count) ∧ Kept resolved form ∧ c.keysOf side form = .ok row

theorem expand_resolves {c : Compiler} {side : Side} {parts : List (Part Slot)} {rows : List (List Key)}
    (h : c.expand side parts = .ok rows) : ∃ resolved count,
      c.resolve 1 parts = .ok (resolved, count) ∧ (formsOf resolved).mapM (c.keysOf side) = .ok rows := by
  rw [expand_eq] at h
  split at h
  · next resolved count hresolve => exact ⟨resolved, count, hresolve, h⟩
  · cases h

theorem mem_expand {c : Compiler} {side : Side} {parts : List (Part Slot)} {rows : List (List Key)}
    (h : c.expand side parts = .ok rows) {row : List Key} :
    row ∈ rows ↔ c.Spells side parts row := by
  obtain ⟨resolved, count, hresolve, hforms⟩ := expand_resolves h
  rw [mem_of_mapM_ok hforms]
  constructor
  · intro h
    obtain ⟨form, hform, hrow⟩ := h
    exact ⟨resolved, count, form, hresolve, mem_formsOf.mp hform, hrow⟩
  · intro h
    obtain ⟨resolved', count', form, hresolve', hform, hrow⟩ := h
    rw [hresolve] at hresolve'
    cases hresolve'
    exact ⟨form, mem_formsOf.mpr hform, hrow⟩

/-- Labels from the last one on are a row that a host stands for, or there is neither. -/
def SpellsHost (c : Compiler) : Option (List (Part Slot)) → Option (List Key) → Prop
  | none, none => True
  | some parts, some labels => c.Spells .host parts labels.reverse
  | _, _ => False

/-- A template compiles side by side. -/
theorem compile_ok {c : Compiler} {t : Template} {compiled : CompiledTemplate}
    (h : c.compile t = .ok compiled) :
    c.expand .path t.path = .ok compiled.paths ∧
      ((t.host? = none ∧ compiled.hosts = [none]) ∨ ∃ parts rows, t.host? = some parts ∧
        c.expand .host parts = .ok rows ∧ compiled.hosts = rows.map fun row => some row.reverse) := by
  unfold compile at h
  cases hpath : c.expand .path t.path with
  | error e =>
    rw [hpath] at h
    cases h
  | ok paths =>
    cases hhost : t.host? with
    | none =>
      rw [hpath, hhost] at h
      cases h
      exact ⟨rfl, Or.inl ⟨rfl, rfl⟩⟩
    | some parts =>
      rw [hpath, hhost] at h
      cases hexpand : c.expand .host parts with
      | error e =>
        simp only [bind, Except.bind, hexpand] at h
        cases h
      | ok rows =>
        simp only [bind, Except.bind, hexpand] at h
        cases h
        exact ⟨rfl, Or.inr ⟨parts, rows, rfl, hexpand, List.map_map⟩⟩

theorem mem_compile {c : Compiler} {t : Template} {compiled : CompiledTemplate}
    (h : c.compile t = .ok compiled) :
    (∀ row, row ∈ compiled.paths ↔ c.Spells .path t.path row) ∧
      ∀ host?, host? ∈ compiled.hosts ↔ c.SpellsHost t.host? host? := by
  obtain ⟨hpath, hhost⟩ := compile_ok h
  refine ⟨fun row => mem_expand hpath, fun host? => ?_⟩
  rcases hhost with ⟨hnone, hhosts⟩ | ⟨parts, rows, hsome, hexpand, hhosts⟩
  · rw [hnone, hhosts]
    cases host? <;> simp [SpellsHost]
  · rw [hsome, hhosts]
    cases host? with
    | none => simp [SpellsHost]
    | some labels => simp [SpellsHost, ← mem_expand hexpand, List.reverse_eq_iff]

/-! ## Rules in the keys

A variable keeps its rules from where they are found to the key where it ends up. -/

theorem variableOf_madeBy {c : Compiler} {slot : Slot} {v : Variable}
    (h : c.variableOf slot = .ok v) : v.MadeBy c.factory := by
  unfold variableOf at h
  cases hchecks : (slot.rules.map specOf ++ c.rulesFor slot.name).mapM c.checkOf with
  | error e =>
    rw [hchecks] at h
    cases h
  | ok checks =>
    rw [hchecks] at h
    cases h
    intro check hcheck
    obtain ⟨spec, -, hspec⟩ := (mem_of_mapM_ok hchecks).mp hcheck
    unfold checkOf at hspec
    split at hspec
    · next hcreate =>
      cases hspec
      exact hcreate
    · cases hspec

/-- A variable that is kept is that of a slot. -/
theorem kept_slot {c : Compiler} {parts : List (Part Slot)} {forms count : Nat}
    {resolved : List (Part Variable)} (h : c.resolve forms parts = .ok (resolved, count))
    {form : List FormPiece} (hform : Kept resolved form) {v : Variable}
    (hv : FormPiece.part (.var v) ∈ form) : ∃ slot ∈ slots parts, c.variableOf slot = .ok v := by
  induction parts using Part.rows_induction generalizing forms count resolved form with
  | nil =>
    cases h
    cases hform
    cases hv
  | delimiter rest ih =>
    obtain ⟨p', n, rest', hp, hrest, rfl⟩ := resolve_cons_ok h
    cases hp
    cases hform with
    | delimiter hform =>
      rcases List.mem_cons.mp hv with hv | hv
      · cases hv
      · exact ih hrest hform hv
  | text s rest ih =>
    obtain ⟨p', n, rest', hp, hrest, rfl⟩ := resolve_cons_ok h
    cases hp
    cases hform with
    | text _ hform =>
      rcases List.mem_cons.mp hv with hv | hv
      · cases hv
      · exact ih hrest hform hv
  | var slot rest ih =>
    obtain ⟨p', n, rest', hp, hrest, rfl⟩ := resolve_cons_ok h
    obtain ⟨v', hslot, rfl⟩ := resolvePart_var_ok hp
    cases hform with
    | var _ hform =>
      rcases List.mem_cons.mp hv with hv | hv
      · cases hv
        exact ⟨slot, List.mem_cons_self, hslot⟩
      · obtain ⟨slot', hmem, hslot'⟩ := ih hrest hform hv
        exact ⟨slot', List.mem_cons_of_mem _ hmem, hslot'⟩
  | optional inner rest ihinner ih =>
    obtain ⟨p', n, rest', hp, hrest, rfl⟩ := resolve_cons_ok h
    obtain ⟨inner', longer, hinner, rfl⟩ := resolvePart_optional_ok hp
    have hlater : ∀ {later}, Kept rest' later → FormPiece.part (.var v) ∈ later →
        ∃ slot ∈ slots (.optional inner :: rest), c.variableOf slot = .ok v := by
      intro later hlater hv
      obtain ⟨slot, hmem, hslot⟩ := ih hrest hlater hv
      exact ⟨slot, List.mem_append_right _ hmem, hslot⟩
    cases hform with
    | drop _ hform => exact hlater hform hv
    | keep hkept hform =>
      rcases List.mem_append.mp hv with hv | hv
      · obtain ⟨slot, hmem, hslot⟩ := ihinner hinner hkept hv
        exact ⟨slot, List.mem_append_left _ hmem, hslot⟩
      · exact hlater hform hv

end Compiler

theorem mem_of_mem_cutForm {form : List FormPiece} {segment : List SegmentPart} {p : SegmentPart}
    (h : segment ∈ cutForm form) (hp : p ∈ segment) : FormPiece.part p ∈ form := by
  induction form generalizing segment with
  | nil =>
    rw [cutForm, List.mem_singleton] at h
    subst h
    cases hp
  | cons piece rest ih =>
    cases piece with
    | delimiter =>
      rw [cutForm] at h
      rcases List.mem_cons.mp h with rfl | h
      · cases hp
      · exact List.mem_cons_of_mem _ (ih h hp)
    | part q =>
      rw [cutForm] at h
      cases hcut : cutForm rest with
      | nil =>
        rw [hcut, List.mem_singleton] at h
        subst h
        rw [List.mem_singleton.mp hp]
        exact List.mem_cons_self
      | cons first others =>
        rw [hcut] at h ih
        rcases List.mem_cons.mp h with rfl | h
        · rcases List.mem_cons.mp hp with rfl | hp
          · exact List.mem_cons_self
          · exact List.mem_cons_of_mem _ (ih List.mem_cons_self hp)
        · exact List.mem_cons_of_mem _ (ih (List.mem_cons_of_mem _ h) hp)

theorem var_mem_of_mem_joinTexts {segment : List SegmentPart} {v : Variable}
    (h : SegmentPart.var v ∈ joinTexts segment) : SegmentPart.var v ∈ segment := by
  induction segment with
  | nil => exact h
  | cons p rest ih =>
    cases p with
    | var v' =>
      rw [joinTexts] at h
      rcases List.mem_cons.mp h with h | h
      · rw [h]
        exact List.mem_cons_self
      · exact List.mem_cons_of_mem _ (ih h)
    | literal text =>
      rw [joinTexts] at h
      refine List.mem_cons_of_mem _ (ih ?_)
      split at h
      · next hrest =>
        rw [hrest]
        rcases List.mem_cons.mp h with h | h
        · cases h
        · exact List.mem_cons_of_mem _ h
      · rcases List.mem_cons.mp h with h | h
        · cases h
        · exact h

theorem var_mem_of_keyOf {side : Side} {segment : List SegmentPart} {k : Key}
    (h : keyOf side segment = .ok k) {v : Variable} (hv : v ∈ k.vars) :
    SegmentPart.var v ∈ segment := by
  unfold keyOf at h
  split at h
  · cases h
    cases hv
  · cases h
    cases hv
  · next parts _ _ =>
    dsimp only at h
    split at h
    · cases h
      obtain ⟨part, hpart, hvar⟩ := List.mem_filterMap.mp hv
      obtain ⟨part', hpart', rfl⟩ := List.mem_map.mp hpart
      have hmem := (List.mem_filter.mp hpart').1
      cases part' with
      | literal text => cases side <;> cases hvar
      | var v' =>
        cases hvar
        exact var_mem_of_mem_joinTexts hmem
    · cases h

/-- The variables in the keys that a row of parts stands for are those of its slots. -/
theorem Compiler.Spells.slot {c : Compiler} {side : Side} {parts : List (Part Slot)}
    {row : List Key} (h : c.Spells side parts row) :
    ∀ k ∈ row, ∀ v ∈ k.vars, ∃ slot ∈ slots parts, c.variableOf slot = .ok v := by
  obtain ⟨resolved, count, form, hresolve, hform, hrow⟩ := h
  intro k hk v hv
  unfold keysOf at hrow
  dsimp only at hrow
  split at hrow
  · cases hrow
  · obtain ⟨segment, hsegment, hkey⟩ := (mem_of_mapM_ok hrow).mp hk
    have hcut := (List.mem_filter.mp hsegment).1
    exact kept_slot hresolve hform (mem_of_mem_cutForm hcut (var_mem_of_keyOf hkey hv))

/-- The rules in the keys that a template stands for are those that the factory makes. -/
theorem Compiler.Spells.madeBy {c : Compiler} {side : Side} {parts : List (Part Slot)}
    {row : List Key} (h : c.Spells side parts row) : ∀ k ∈ row, k.MadeBy c.factory := by
  intro k hk v hv
  obtain ⟨slot, -, hslot⟩ := h.slot k hk v hv
  exact variableOf_madeBy hslot

end UriRouting
