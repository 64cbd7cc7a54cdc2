import UriRouting.Proofs.Route.Sources
import UriRouting.Proofs.Router.Sharing
/-!
Routes on their own.

Alone in a router, a route shares nodes with none but itself. Two of its variables that are the same have
one name, so that the route gives both of them the same rules, and the rules that the template gives them
have no parameter that is the negative zero. So the two are equal, whatever the factory makes of their rules,
and the route is visited for what its own rows of keys take: `Accepts.comesBy_alone`.
-/

namespace UriRouting

/-! ## Variables -/

section

variable {γ : Type} {same : γ → γ → Bool}

theorem length_of_pairwiseSame {as bs : List γ} (h : pairwiseSame same as bs = true) :
    as.length = bs.length := by
  induction as generalizing bs with
  | nil =>
    cases bs with
    | nil => rfl
    | cons b bs => cases h
  | cons a as ih =>
    cases bs with
    | nil => cases h
    | cons b bs =>
      rw [pairwiseSame, Bool.and_eq_true] at h
      rw [List.length_cons, List.length_cons, ih h.2]

theorem pairwiseSame_front {as bs : List γ} (cs : List γ)
    (h : pairwiseSame same (as ++ cs) (bs ++ cs) = true) : pairwiseSame same as bs = true := by
  have hlength := length_of_pairwiseSame h
  rw [List.length_append, List.length_append, Nat.add_right_cancel_iff] at hlength
  induction as generalizing bs with
  | nil => rw [List.eq_nil_of_length_eq_zero hlength.symm, pairwiseSame]
  | cons a as ih =>
    cases bs with
    | nil => cases hlength
    | cons b bs =>
      rw [List.cons_append, List.cons_append, pairwiseSame, Bool.and_eq_true] at h
      rw [pairwiseSame, h.1, ih h.2 (Nat.succ.inj hlength)]
      rfl

end

namespace Compiler

variable {c : Compiler}

/-- The rules of a variable are those in the template, then those of the route for its name. -/
theorem variableOf_specs {slot : Slot} {v : Variable} (h : c.variableOf slot = .ok v) :
    v.checks.map (·.1) = slot.rules.map specOf ++ c.rulesFor slot.name := by
  unfold variableOf at h
  cases hchecks : (slot.rules.map specOf ++ c.rulesFor slot.name).mapM c.checkOf with
  | error e =>
    rw [hchecks] at h
    cases h
  | ok checks =>
    rw [hchecks] at h
    cases h
    refine List.forall₂_eq_eq_eq ▸ List.forall₂_map_left_iff.mpr ?_
    refine (forall₂_of_mapM_ok hchecks).flip.imp fun check spec hspec => ?_
    unfold checkOf at hspec
    split at hspec
    · cases hspec
      rfl
    · cases hspec

/-- Variables of one route that are the same are equal, as the route gives both of them the same rules and
the template names no negative zero. -/
theorem variableOf_eq_of_same {slot slot' : Slot} {v v' : Variable} (h : c.variableOf slot = .ok v)
    (h' : c.variableOf slot' = .ok v') (hplain : .float (.signed true 0) ∉ slot.params)
    (hplain' : .float (.signed true 0) ∉ slot'.params) (hsame : v.same v' = true) : v = v' := by
  rw [Variable.same, Bool.and_eq_true, decide_eq_true_eq] at hsame
  have hname : slot.name = slot'.name := by
    rw [← variableOf_name h, ← variableOf_name h', hsame.1]
  have hparams : ∀ {slot : Slot}, .float (.signed true 0) ∉ slot.params →
      ∀ spec ∈ slot.rules.map specOf, ∀ p ∈ spec.params, p ≠ .float (.signed true 0) := by
    intro slot hplain spec hspec p hp
    obtain ⟨call, hcall, rfl⟩ := List.mem_map.mp hspec
    exact ne_of_mem_of_not_mem (List.mem_flatMap.mpr ⟨call, hcall, hp⟩) hplain
  have hspecs : slot.rules.map specOf = slot'.rules.map specOf := by
    have hchecks := hsame.2
    rw [variableOf_specs h, variableOf_specs h', ← hname] at hchecks
    refine eq_of_pairwiseSame (fun a ha b hb hab => ?_) (pairwiseSame_front _ hchecks)
    obtain ⟨name, ps⟩ := a
    obtain ⟨name', qs⟩ := b
    rw [RuleSpec.same, Bool.and_eq_true, decide_eq_true_eq] at hab
    have hnames : name = name' := hab.1
    have hlists : ps = qs := eq_of_pairwiseSame
      (fun p hp q hq => Param.eq_of_same (hparams hplain _ ha p hp) (hparams hplain' _ hb q hq)) hab.2
    rw [hnames, hlists]
  have hequal : c.variableOf slot = c.variableOf slot' := by
    rw [variableOf, variableOf, hspecs, hname]
  exact Except.ok.inj (h.symm.trans (hequal.trans h'))

end Compiler

/-- No rule in a template has the negative zero for a parameter. -/
theorem ofString_params {text : String} {t : Template} (h : Template.ofString text = .ok t)
    {parts : List (Part Slot)} (hparts : parts = t.path ∨ t.host? = some parts) :
    ∀ slot ∈ slots parts, .float (.signed true 0) ∉ slot.params := by
  obtain ⟨tokens, hlex, hspelled⟩ := ofString_ok_iff.mp h
  have htokens : ∀ t ∈ tokens, ∃ n, t.Spelled n := fun t ht => (lex_spelled hlex).exists_of_mem ht
  cases hspelled with
  | path cut brackets spelled =>
    obtain rfl | hnone := hparts
    · exact spelled.unsigned htokens
    · cases hnone
  | host cut more spelledHost spelledPath =>
    obtain rfl | hsome := hparts
    · exact spelledPath.unsigned fun t ht => htokens t (cut.joined ▸ List.mem_append_right _ ht)
    · cases hsome
      exact spelledHost.unsigned fun t ht => htokens t (cut.joined ▸ List.mem_append_left _ ht)

/-! ## Routes -/

namespace Router

variable {α : Type} {r : Router α} {route : Route α} {template : Template} {compiled : CompiledTemplate}

/-- The keys of a route are alike, if there are no others. -/
theorem Accepts.alikeTo_alone (h : r.Accepts route template compiled) :
    ∀ k ∈ ((empty r.factory r.config).extended route template compiled).keys,
      AlikeTo (· ∈ ((empty r.factory r.config).extended route template compiled).keys) k := by
  have hsound : ((empty r.factory r.config).extended route template compiled).Sound :=
    (Reachable.empty r.factory r.config).sound.extended h.onEmpty
  have hslots : ∀ k ∈ ((empty r.factory r.config).extended route template compiled).keys, ∀ v ∈ k.vars,
      ∃ slot : Slot, .float (.signed true 0) ∉ slot.params ∧ (r.compilerFor route).variableOf slot = .ok v := by
    intro k hk v hv
    obtain ⟨e, he, hk⟩ := List.mem_flatMap.mp hk
    have hentry : e = (empty r.factory r.config).entryFor route template := List.mem_singleton.mp he
    obtain ⟨side, parts, row, hparts, hspells, hk⟩ := hsound.key_spelled he hk
    rw [hentry] at hparts hspells
    obtain ⟨slot, hmem, hslot⟩ := hspells.slot k hk v hv
    exact ⟨slot, ofString_params h.reads hparts slot hmem, hslot⟩
  intro k hk
  refine alikeTo_of_alike fun v hv k' hk' w hw hsame => ?_
  obtain ⟨slot, hplain, hslot⟩ := hslots k hk v hv
  obtain ⟨slot', hplain', hslot'⟩ := hslots k' hk' w hw
  obtain rfl := Compiler.variableOf_eq_of_same hslot hslot' hplain hplain' hsame
  exact ⟨rfl, fun _ => rfl⟩

theorem Accepts.registered_eq (h : r.Accepts route template compiled) :
    r.registered route = r.extended route template compiled := by
  obtain ⟨attached, hregister⟩ := h.register_eq
  rw [registered, hregister]

/-- In a router of its own a route is visited for what its rows of keys take, whatever its rules are. -/
theorem Accepts.comesBy_alone (h : r.Accepts route template compiled) {host path : String}
    {captures : Captures} :
    ((empty r.factory r.config).registered route).ComesBy 0 host path captures ↔
      ∃ row ∈ compiled.paths, ∃ host? ∈ compiled.hosts, ∃ ofPath ofHost,
        RowTakes row (segmentsOfPath path) ofPath ∧ HostTakes host host? ofHost ∧
          captures = ofPath ++ ofHost := by
  have hsound : ((empty r.factory r.config).extended route template compiled).Sound :=
    (Reachable.empty r.factory r.config).sound.extended h.onEmpty
  have hmem := (empty r.factory r.config).mem_entries_extended route template compiled
  rw [h.onEmpty.registered_eq, ← h.onEmpty.takes_iff]
  exact hsound.comesBy_iff hmem fun k hk => h.alikeTo_alone k (List.mem_flatMap.mpr ⟨_, hmem, hk⟩)

end Router

end UriRouting
