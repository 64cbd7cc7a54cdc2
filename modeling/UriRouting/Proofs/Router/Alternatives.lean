import UriRouting.Proofs.Router.Registration
import UriRouting.Proofs.Trie.Choices
/-!
How many alternatives a route is attached to.

Compiling refuses a row with more forms than the configuration allows. It does so for the path and then,
from one form again, for the host: `Compiler.compile_length`. A route is attached at every pair of a path
and a host, so that the limit bounds each side of a template, and only its square the whole:
`RouteTrie.attachAll_le`.
-/

namespace UriRouting

/-! ## Choices -/

def Template.pathChoices (t : Template) : Nat := rowChoices t.path

/-- Without a host there is one choice: every host. -/
def Template.hostChoices (t : Template) : Nat := (t.host?.map rowChoices).getD 1

namespace Compiler

theorem expand_length {c : Compiler} {side : Side} {parts : List (Part Slot)} {rows : List (List Key)}
    (h : c.expand side parts = .ok rows) : rows.length = rowChoices parts ∧
      rowChoices parts ≤ max 1 c.config.maxTemplateAlternatives := by
  obtain ⟨resolved, count, hresolve, hrows⟩ := expand_resolves h
  have hcount := resolve_count hresolve
  have hle := resolve_le hresolve
  refine ⟨?_, by omega⟩
  rw [length_mapM_ok hrows, length_formsOf, rowChoices_resolve hresolve]

theorem compile_length {c : Compiler} {t : Template} {compiled : CompiledTemplate}
    (h : c.compile t = .ok compiled) :
    (compiled.paths.length = t.pathChoices ∧ compiled.hosts.length = t.hostChoices) ∧
      t.pathChoices ≤ max 1 c.config.maxTemplateAlternatives ∧
      t.hostChoices ≤ max 1 c.config.maxTemplateAlternatives := by
  obtain ⟨hpaths, hhosts⟩ := compile_ok h
  obtain ⟨hlength, hpath⟩ := expand_length hpaths
  rcases hhosts with ⟨hnone, hhosts⟩ | ⟨parts, rows, hsome, hexpand, hhosts⟩
  · have hchoices : t.hostChoices = 1 := by rw [Template.hostChoices, hnone]; rfl
    rw [hhosts, hchoices]
    exact ⟨⟨hlength, rfl⟩, hpath, Nat.le_max_left _ _⟩
  · obtain ⟨hrows, hhost⟩ := expand_length hexpand
    have hchoices : t.hostChoices = rowChoices parts := by rw [Template.hostChoices, hsome]; rfl
    rw [hhosts, hchoices, List.length_map]
    exact ⟨⟨hlength, hrows⟩, hpath, hhost⟩

end Compiler

/-! ## Attachments -/

variable {α : Type}

theorem PathEnd.attachAll_le (e : Entry α) (hosts : List (Option (List Key))) (p : PathEnd α) :
    (p.attachAll e hosts).2 ≤ hosts.length := by
  induction hosts generalizing p with
  | nil => exact Nat.le_refl 0
  | cons host? rest ih =>
    have hrest := ih (p.attach e host?)
    simp only [attachAll, List.length_cons]
    split <;> omega

theorem RouteTrie.attachAll_le (e : Entry α) (hosts : List (Option (List Key)))
    (paths : List (List Key)) (t : RouteTrie α) :
    (attachAll e hosts paths t).2 ≤ paths.length * hosts.length := by
  induction paths generalizing t with
  | nil => exact Nat.zero_le _
  | cons path rest ih =>
    calc (attachAll e hosts (path :: rest) t).2
        = ((endOf path t).attachAll e hosts).2
            + (attachAll e hosts rest (attachPath e hosts path t)).2 := rfl
      _ ≤ hosts.length + rest.length * hosts.length := Nat.add_le_add (PathEnd.attachAll_le _ _ _) (ih _)
      _ = (path :: rest).length * hosts.length := by rw [List.length_cons, Nat.succ_mul, Nat.add_comm]

namespace Router

/-- Each side of a registered template has at most as many forms as the limit, and the route is attached
to at most one alternative for each form of the path and each of the host. The limit bounds the whole
template where one of the sides has a single form. -/
theorem register_alternatives {r r' : Router α} {route : Route α} {attached : Nat}
    (h : register route r = .ok attached r') : ∃ template,
      Template.ofString route.template.source = .ok template ∧
      attached ≤ template.pathChoices * template.hostChoices ∧
      template.pathChoices ≤ max 1 r.config.maxTemplateAlternatives ∧
      template.hostChoices ≤ max 1 r.config.maxTemplateAlternatives ∧
      (template.pathChoices = 1 ∨ template.hostChoices = 1 →
        attached ≤ max 1 r.config.maxTemplateAlternatives) := by
  rcases register_cases route r with ⟨e, hrefused⟩ | ⟨template, compiled, haccepts, haccepted⟩
  · rw [hrefused] at h
    cases h
  · rw [haccepted] at h
    cases h
    obtain ⟨⟨hpaths, hhosts⟩, hpath, hhost⟩ := Compiler.compile_length haccepts.compiles
    have hle := RouteTrie.attachAll_le (r.entryFor route template) compiled.hosts compiled.paths r.root
    rw [hpaths, hhosts] at hle
    refine ⟨template, haccepts.reads, hle, hpath, hhost, fun hone => hle.trans ?_⟩
    rcases hone with hone | hone
    · rw [hone, Nat.one_mul]
      exact hhost
    · rw [hone, Nat.mul_one]
      exact hpath

def attached? {ε σ : Type} : EStateM.Result ε σ Nat → Option Nat
  | .ok n _ => some n
  | .error _ _ => none

theorem exists_of_attached? {ε σ : Type} {result : EStateM.Result ε σ Nat} {n : Nat}
    (h : attached? result = some n) : ∃ s, result = .ok n s := by
  cases result with
  | ok n' s =>
    cases h
    exact ⟨s, rfl⟩
  | error e s => cases h

/-- A page with two forms of its path and two of its host. -/
def wide : Route String := .new [.get] ((UriTemplate.ofPath "/x[/y]").withHost "[a.]b") "page"

theorem register_alternatives_wide : ∃ r',
    register wide (.empty .default { maxTemplateAlternatives := 2 }) = .ok 4 r' ∧
    ∃ template, Template.ofString "[a.]b/x[/y]" = .ok template ∧
      4 ≤ template.pathChoices * template.hostChoices ∧ template.pathChoices ≤ 2 ∧
      template.hostChoices ≤ 2 := by
  obtain ⟨r', h⟩ : ∃ r', register wide (.empty .default { maxTemplateAlternatives := 2 }) = .ok 4 r' :=
    exists_of_attached? (by decide +kernel)
  obtain ⟨template, hreads, hproduct, hpath, hhost, -⟩ := register_alternatives h
  exact ⟨r', h, template, hreads, hproduct, hpath, hhost⟩

/-- The limit is on each side alone: two forms of a path and two of a host make four alternatives. -/
theorem alternatives_above_limit : ¬ ∀ (config : Config) (route : Route String) (attached : Nat)
    (r' : Router String), register route (.empty .default config) = .ok attached r' →
      attached ≤ max 1 config.maxTemplateAlternatives := by
  intro hbounded
  obtain ⟨r', h⟩ : ∃ r', register wide (.empty .default { maxTemplateAlternatives := 2 }) = .ok 4 r' :=
    exists_of_attached? (by decide +kernel)
  have hfour : 4 ≤ max 1 2 := hbounded { maxTemplateAlternatives := 2 } wide 4 r' h
  omega

end Router
end UriRouting
