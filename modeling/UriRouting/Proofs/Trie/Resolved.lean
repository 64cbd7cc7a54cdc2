import UriRouting.Proofs.Trie.Forms
/-!
What finding the rules of its variables leaves of a row of parts.

A row with its rules is the row as written but for what stands for the variables, and these keep their
names: `resolve_names`. So whatever is said of a row up to its variables' names holds of both.
-/

namespace UriRouting

namespace Part

variable {ν μ : Type}

def isOptional : Part ν → Bool
  | optional _ => true
  | _ => false

mutual

def map (f : ν → μ) : Part ν → Part μ
  | .delimiter => .delimiter
  | .text s => .text s
  | .var v => .var (f v)
  | .optional parts => .optional (mapRow f parts)

def mapRow (f : ν → μ) : List (Part ν) → List (Part μ)
  | [] => []
  | p :: rest => p.map f :: mapRow f rest

end

@[simp] theorem mapRow_cons (f : ν → μ) (p : Part ν) (rest : List (Part ν)) :
    mapRow f (p :: rest) = p.map f :: mapRow f rest := rfl

theorem mapRow_cons_eq {κ : Type} {f : ν → κ} {g : μ → κ} {p : Part ν} {rest : List (Part ν)}
    {row : List (Part μ)} (h : mapRow f (p :: rest) = mapRow g row) :
    ∃ q row', row = q :: row' ∧ p.map f = q.map g ∧ mapRow f rest = mapRow g row' := by
  cases row with
  | nil => cases h
  | cons q row' =>
    obtain ⟨hp, hrest⟩ := List.cons.inj h
    exact ⟨q, row', rfl, hp, hrest⟩

@[simp] theorem map_delimiter (f : ν → μ) : (delimiter : Part ν).map f = .delimiter := rfl

@[simp] theorem map_text (f : ν → μ) (s : String) : (text s : Part ν).map f = .text s := rfl

@[simp] theorem map_var (f : ν → μ) (v : ν) : (var v).map f = .var (f v) := rfl

@[simp] theorem map_optional (f : ν → μ) (inner : List (Part ν)) :
    (optional inner).map f = .optional (mapRow f inner) := rfl

end Part

namespace Compiler

variable {c : Compiler}

theorem variableOf_name {slot : Slot} {v : Variable} (h : c.variableOf slot = .ok v) :
    v.name = slot.name := by
  unfold variableOf at h
  cases hchecks : (slot.rules.map specOf ++ c.rulesFor slot.name).mapM c.checkOf with
  | error e =>
    rw [hchecks] at h
    cases h
  | ok checks =>
    rw [hchecks] at h
    cases h
    rfl

/-- The rules of variables change nothing but the variables, and not their names. -/
theorem resolve_names {parts : List (Part Slot)} {forms count : Nat} {resolved : List (Part Variable)}
    (h : c.resolve forms parts = .ok (resolved, count)) :
    Part.mapRow Variable.name resolved = Part.mapRow Slot.name parts := by
  induction parts using Part.rows_induction generalizing forms count resolved with
  | nil =>
    cases h
    rfl
  | delimiter rest ih =>
    obtain ⟨p', n, rest', hp, hrest, rfl⟩ := resolve_cons_ok h
    cases hp
    simp [ih hrest]
  | text s rest ih =>
    obtain ⟨p', n, rest', hp, hrest, rfl⟩ := resolve_cons_ok h
    cases hp
    simp [ih hrest]
  | var slot rest ih =>
    obtain ⟨p', n, rest', hp, hrest, rfl⟩ := resolve_cons_ok h
    obtain ⟨v, hslot, rfl⟩ := resolvePart_var_ok hp
    simp [ih hrest, variableOf_name hslot]
  | optional inner rest ihinner ih =>
    obtain ⟨p', n, rest', hp, hrest, rfl⟩ := resolve_cons_ok h
    obtain ⟨inner', longer, hinner, rfl⟩ := resolvePart_optional_ok hp
    simp [ih hrest, ihinner hinner]

end Compiler

end UriRouting
