import Mathlib.Data.List.ProdSigma
import UriRouting.Proofs.Router.Alternatives
import UriRouting.Proofs.Router.Shape
import UriRouting.Proofs.Trie.Lookup
/-!
At how many alternatives a route is newly attached.

A registration counts the pairs of a path and a host at whose end the new entry was not attached before
it came there. What is attached where changes pair by pair: `held_attachPath`. As no entry has the
place of the new one, those that count are those that are not the same as a pair before them:
`newcomers`.
-/

namespace UriRouting

/-! ## Newcomers -/

section

variable {γ : Type} (same : γ → γ → Bool)

/-- The members of a list that are new when they come: not held, and not the same as one before. -/
def newcomers (held : γ → Bool) : List γ → List γ
  | [] => []
  | x :: rest =>
    let later := newcomers (fun y => held y || same x y) rest
    if held x then later else x :: later

/-- A choice of members no two of which are the same, with one that is the same as each member. -/
structure Represents (chosen all : List γ) : Prop where
  sublist : chosen.Sublist all
  distinct : chosen.Pairwise fun a b => same a b = false
  covers : ∀ a ∈ all, ∃ b ∈ chosen, same b a = true

theorem newcomers_append (held : γ → Bool) (xs ys : List γ) : newcomers same held (xs ++ ys)
    = newcomers same held xs ++ newcomers same (fun y => held y || xs.any (same · y)) ys := by
  induction xs generalizing held with
  | nil => simp [newcomers]
  | cons x xs ih =>
    rw [List.cons_append, newcomers, newcomers, ih]
    simp only [List.any_cons, Bool.or_assoc]
    split <;> simp

theorem newcomers_map {δ : Type} {same' : δ → δ → Bool} (f : δ → γ)
    (hsame : ∀ a b, same (f a) (f b) = same' a b) (held : γ → Bool) (xs : List δ) :
    newcomers same held (xs.map f) = (newcomers same' (fun x => held (f x)) xs).map f := by
  induction xs generalizing held with
  | nil => rfl
  | cons x xs ih =>
    rw [List.map_cons, newcomers, newcomers, ih]
    simp only [hsame]
    split <;> simp

theorem newcomers_sublist (held : γ → Bool) (xs : List γ) : (newcomers same held xs).Sublist xs := by
  induction xs generalizing held with
  | nil => exact List.Sublist.slnil
  | cons x xs ih =>
    rw [newcomers]
    split
    · exact (ih _).cons x
    · exact (ih _).cons_cons x

variable {same} in
theorem not_held_of_mem_newcomers {held : γ → Bool} {xs : List γ} {x : γ}
    (hx : x ∈ newcomers same held xs) : held x = false := by
  induction xs generalizing held with
  | nil => cases hx
  | cons y xs ih =>
    have hlater : x ∈ newcomers same (fun z => held z || same y z) xs → held x = false := fun hx =>
      (Bool.or_eq_false_iff.mp (ih hx)).1
    rw [newcomers] at hx
    split at hx
    · exact hlater hx
    · next hy =>
      obtain rfl | hx := List.mem_cons.mp hx
      · exact Bool.eq_false_iff.mpr hy
      · exact hlater hx

theorem newcomers_pairwise (held : γ → Bool) (xs : List γ) :
    (newcomers same held xs).Pairwise fun a b => same a b = false := by
  induction xs generalizing held with
  | nil => exact List.Pairwise.nil
  | cons x xs ih =>
    rw [newcomers]
    split
    · exact ih _
    · refine List.pairwise_cons.mpr ⟨fun y hy => ?_, ih _⟩
      have hboth := not_held_of_mem_newcomers hy
      exact (Bool.or_eq_false_iff.mp hboth).2

theorem newcomers_cover (htrans : ∀ {a b c}, same a b = true → same b c = true → same a c = true)
    (held : γ → Bool) (hheld : ∀ {a b}, held a = true → same a b = true → held b = true)
    {xs : List γ} (hself : ∀ x ∈ xs, same x x = true) {x : γ} (hx : x ∈ xs) :
    held x = true ∨ ∃ y ∈ newcomers same held xs, same y x = true := by
  induction xs generalizing held with
  | nil => cases hx
  | cons z xs ih =>
    have hz : same z z = true := hself z List.mem_cons_self
    -- The first member is held, or it is new.
    have hfirst : ∀ {x}, same z x = true →
        held x = true ∨ ∃ y ∈ newcomers same held (z :: xs), same y x = true := by
      intro x hzx
      by_cases hheldz : held z = true
      · exact Or.inl (hheld hheldz hzx)
      · refine Or.inr ⟨z, ?_, hzx⟩
        rw [newcomers, if_neg hheldz]
        exact List.mem_cons_self
    have hclosed : ∀ {a b}, (held a || same z a) = true → same a b = true →
        (held b || same z b) = true := by
      intro a b ha hab
      rw [Bool.or_eq_true] at ha ⊢
      exact ha.imp (fun ha => hheld ha hab) fun ha => htrans ha hab
    obtain rfl | hx := List.mem_cons.mp hx
    · exact hfirst hz
    · obtain hold | ⟨y, hy, hyx⟩ := ih _ hclosed (fun x hx => hself x (List.mem_cons_of_mem z hx)) hx
      · obtain hold | hzx := Bool.or_eq_true_iff.mp hold
        · exact Or.inl hold
        · exact hfirst hzx
      · refine Or.inr ⟨y, ?_, hyx⟩
        rw [newcomers]
        split
        · exact hy
        · exact List.mem_cons_of_mem z hy

/-- Where all are the same as themselves, the newcomers stand for all. -/
theorem represents_newcomers
    (htrans : ∀ {a b c}, same a b = true → same b c = true → same a c = true) {xs : List γ}
    (hself : ∀ x ∈ xs, same x x = true) : Represents same (newcomers same (fun _ => false) xs) xs := by
  refine ⟨newcomers_sublist same _ xs, newcomers_pairwise same _ xs, fun x hx => ?_⟩
  obtain hfalse | hnew := newcomers_cover same htrans (fun _ => false) (fun hfalse _ => hfalse) hself hx
  · cases hfalse
  · exact hnew

end

/-! ## Pairs -/

def sameHost : Option (List Key) → Option (List Key) → Bool
  | none, none => true
  | some a, some b => sameRow a b
  | _, _ => false

/-- Whether two pairs of a path and a host are the same key by key. -/
def samePair (a b : List Key × Option (List Key)) : Bool := sameRow a.1 b.1 && sameHost a.2 b.2

theorem sameHost_trans {a b c : Option (List Key)} (hab : sameHost a b = true)
    (hbc : sameHost b c = true) : sameHost a c = true := by
  cases a with
  | none => cases b <;> cases c <;> simp_all [sameHost]
  | some a =>
    cases b with
    | none => cases hab
    | some b =>
      cases c with
      | none => cases hbc
      | some c => exact sameRow_trans hab hbc

theorem samePair_trans {a b c : List Key × Option (List Key)} (hab : samePair a b = true)
    (hbc : samePair b c = true) : samePair a c = true := by
  rw [samePair, Bool.and_eq_true] at *
  exact ⟨sameRow_trans hab.1 hbc.1, sameHost_trans hab.2 hbc.2⟩

/-- No rule of a key has `nan` for a parameter. -/
def Key.NanFree (k : Key) : Prop := Param.float .nan ∉ k.params

theorem Param.same_self {p : Param} (h : p ≠ .float .nan) : p.same p = true := by
  cases p with
  | int i => simp [Param.same]
  | str s => simp [Param.same]
  | float x =>
    cases x with
    | nan => exact absurd rfl h
    | signed negative position => simp [Param.same, Numeric.Binary64.equal, Numeric.Binary64.rank?]

theorem Key.NanFree.same_self {k : Key} (h : k.NanFree) : k.same k = true :=
  Key.same_self fun _ hp => Param.same_self fun heq => h (heq ▸ hp)

theorem sameRow_self {row : List Key} (h : ∀ k ∈ row, k.NanFree) : sameRow row row = true :=
  pairwiseSame_self fun k hk => (h k hk).same_self

/-! ## What is attached -/

variable {α : Type} {e : Entry α}

/-- The tables of the hosts at the end of a path are sorted. -/
def PathEnd.Ordered (p : PathEnd α) : Prop := ∀ t, p.hosts? = some t → t.Ordered fun _ => True

theorem PathEnd.ordered_empty : ({} : PathEnd α).Ordered := fun _ ht => nomatch ht

theorem PathEnd.Ordered.getD {p : PathEnd α} (h : p.Ordered) :
    (p.hosts?.getD (.single [])).Ordered fun _ => True := by
  cases hhosts : p.hosts? with
  | none => exact Trie.ordered_single trivial
  | some t => exact h t hhosts

theorem PathEnd.Ordered.attach {p : PathEnd α} (h : p.Ordered) (host? : Option (List Key)) :
    (p.attach e host?).Ordered := by
  cases host? with
  | none => exact h
  | some host =>
    intro t ht
    cases ht
    exact h.getD.insert trivial (fun _ _ => trivial) host

theorem holdsEntry_attach (e : Entry α) (es : List (Entry α)) :
    holdsEntry e.position (attach e es) = true :=
  (holdsEntry_attach_iff e.position e es).mpr (Or.inr rfl)

theorem holds_some (position : Nat) (host : List Key) (p : PathEnd α) : p.holds position (some host)
    = holdsEntry position ((Trie.find? host (p.hosts?.getD (.single []))).getD []) := by
  rw [PathEnd.holds]
  cases p.hosts? with
  | none => rw [Option.getD_none, Trie.getD_find?_single]; rfl
  | some t =>
    rw [Option.bind_some, Option.getD_some]
    cases Trie.find? host t <;> rfl

/-- Behind a host, an entry is attached at all hosts that are the same as it. -/
theorem PathEnd.holds_attach {p : PathEnd α} (h : p.Ordered) (host? other? : Option (List Key)) :
    (p.attach e host?).holds e.position other?
      = (p.holds e.position other? || sameHost host? other?) := by
  cases host? with
  | none =>
    cases other? with
    | none => simp [PathEnd.attach, PathEnd.holds, sameHost, holdsEntry_attach]
    | some other => simp [PathEnd.attach, PathEnd.holds, sameHost]
  | some host =>
    cases other? with
    | none => simp [PathEnd.attach, PathEnd.holds, sameHost]
    | some other =>
      rw [holds_some, holds_some, PathEnd.attach, Option.getD_some,
        Trie.getD_find?_insert h.getD trivial, sameHost]
      split
      · next hsame => rw [holdsEntry_attach, hsame, Bool.or_true]
      · next hother => rw [Bool.eq_false_iff.mpr hother, Bool.or_false]

/-- What attaching an entry at several hosts does: the newcomers are counted, and all of them hold it
afterwards. -/
theorem PathEnd.Ordered.attachAll {p : PathEnd α} (h : p.Ordered) (hosts : List (Option (List Key))) :
    (p.attachAll e hosts).2 = (newcomers sameHost (p.holds e.position) hosts).length ∧
      (p.attachAll e hosts).1.Ordered ∧
      ∀ other?, (p.attachAll e hosts).1.holds e.position other?
        = (p.holds e.position other? || hosts.any (sameHost · other?)) := by
  induction hosts generalizing p with
  | nil => exact ⟨rfl, h, fun other? => (Bool.or_false _).symm⟩
  | cons host? rest ih =>
    obtain ⟨hcount, hordered, hholds⟩ := ih (h.attach (e := e) host?)
    have hheld : (p.attach e host?).holds e.position
        = fun other? => p.holds e.position other? || sameHost host? other? :=
      funext fun other? => PathEnd.holds_attach h host? other?
    refine ⟨?_, hordered, fun other? => ?_⟩
    · rw [hheld] at hcount
      rw [newcomers]
      simp only [PathEnd.attachAll, hcount]
      split
      · exact Nat.zero_add _
      · rw [List.length_cons, Nat.add_comm]
    · show ((p.attach e host?).attachAll e rest).1.holds e.position other? = _
      rw [hholds, PathEnd.holds_attach h, List.any_cons, Bool.or_assoc]

namespace RouteTrie

/-- Whether an entry is attached at the end of a path, for a host. -/
def held (position : Nat) (t : RouteTrie α) (pair : List Key × Option (List Key)) : Bool :=
  (endOf pair.1 t).holds position pair.2

theorem held_attachPath {t : RouteTrie α} (h : t.Ordered PathEnd.Ordered)
    (hosts : List (Option (List Key))) (path : List Key) (pair : List Key × Option (List Key)) :
    (attachPath e hosts path t).held e.position pair = (t.held e.position pair ||
      (sameRow path pair.1 && hosts.any (sameHost · pair.2))) := by
  have hend : (endOf pair.1 t).Ordered := h.getD_find? PathEnd.ordered_empty pair.1
  rw [held, endOf, attachPath, Trie.getD_find?_insert h PathEnd.ordered_empty]
  split
  · next hsame =>
    rw [hsame, Bool.true_and]
    exact (hend.attachAll hosts).2.2 pair.2
  · next hother =>
    rw [Bool.eq_false_iff.mpr hother, Bool.false_and, Bool.or_false]
    rfl

/-- What is counted are the pairs that are new when they come. -/
theorem attachAll_count {t : RouteTrie α} (h : t.Ordered PathEnd.Ordered)
    (hosts : List (Option (List Key))) {paths : List (List Key)}
    (hself : ∀ path ∈ paths, sameRow path path = true) :
    (attachAll e hosts paths t).2
      = (newcomers samePair (t.held e.position) (paths ×ˢ hosts)).length := by
  induction paths generalizing t with
  | nil => rfl
  | cons path rest ih =>
    have hend : (endOf path t).Ordered := h.getD_find? PathEnd.ordered_empty path
    have hordered : (attachPath e hosts path t).Ordered PathEnd.Ordered :=
      h.insert PathEnd.ordered_empty (fun p hp => (hp.attachAll hosts).2.1) path
    -- Behind the first path, the pairs with paths that are the same as it are held.
    have hheld : (attachPath e hosts path t).held e.position = fun pair =>
        t.held e.position pair || (hosts.map (path, ·)).any (samePair · pair) := by
      funext pair
      rw [held_attachPath h, List.any_map]
      cases hsame : sameRow path pair.1 <;> simp [samePair, hsame, Function.comp_def]
    have hhere : newcomers samePair (t.held e.position) (hosts.map (path, ·))
        = (newcomers sameHost ((endOf path t).holds e.position) hosts).map (path, ·) := by
      refine newcomers_map samePair (path, ·) (fun a b => ?_) _ hosts
      rw [samePair, hself path List.mem_cons_self, Bool.true_and]
    have hrest := ih hordered fun path' hpath' => hself path' (List.mem_cons_of_mem path hpath')
    rw [List.product_cons, newcomers_append, List.length_append, hhere, List.length_map, ← hheld, ← hrest,
      ← (hend.attachAll hosts).1]
    rfl

end RouteTrie

namespace Router

theorem InShape.ordered {r : Router α} (h : r.InShape) : r.root.Ordered PathEnd.Ordered := by
  intro path s hs
  refine ⟨(h path s hs).sorted, fun t ht => ?_⟩
  have hhosts := ((h path s hs).good.hosts t ht).nodes
  exact fun labels s' hs' => ⟨(hhosts labels s' hs').sorted, trivial⟩

/-- The place of the next entry is not taken anywhere. -/
theorem Reachable.held_size {r : Router α} (h : Reachable r) (pair : List Key × Option (List Key)) :
    r.root.held r.size pair = false := by
  have hfree : ∀ es, Attached r.entries es → holdsEntry r.size es = false := by
    intro es hes
    rw [holdsEntry, List.any_eq_false]
    intro e he
    obtain ⟨i, hi⟩ := List.mem_iff_getElem?.mp (hes.1 e he)
    have hlt : i < r.size := (List.getElem?_eq_some_iff.mp hi).1
    have hposition := h.sound.position i e hi
    simp only [decide_eq_true_eq]
    omega
  have hroot : r.root.Ordered (EndInShape r.entries r.config.maxSegments) := fun path s hs =>
    ⟨(h.inShape path s hs).sorted, (h.inShape path s hs).good⟩
  have hend : EndInShape r.entries r.config.maxSegments (RouteTrie.endOf pair.1 r.root) :=
    hroot.getD_find? endInShape_empty pair.1
  rw [RouteTrie.held]
  cases pair.2 with
  | none => exact hfree _ hend.attached
  | some host =>
    rw [holds_some]
    refine hfree _ ?_
    have hnone : Attached r.entries ([] : List (Entry α)) :=
      ⟨fun _ he => (List.not_mem_nil he).elim, List.Pairwise.nil⟩
    have hhosts : ((RouteTrie.endOf pair.1 r.root).hosts?.getD (.single [])).Ordered
        (Attached r.entries) := by
      cases hsome : (RouteTrie.endOf pair.1 r.root).hosts? with
      | none => exact Trie.ordered_single hnone
      | some t =>
        have hshape := (hend.hosts t hsome).nodes
        exact fun labels s hs => ⟨(hshape labels s hs).sorted, (hshape labels s hs).good⟩
    exact hhosts.getD_find? hnone host

/-- Expanding a side of a template is exact, whatever the rules, limits and parts. A registered route is
attached at as many alternatives as its template has pairs of a path and a host that are not the same
key by key, if no rule has `nan` for a parameter. -/
theorem Reachable.expansion_exact {r : Router α} (h : Reachable r) :
    (∀ (c : Compiler) (side : Side) (parts : List (Part Slot)) (row : List (Part Variable)),
      Part.mapRow c.variableOf parts = Part.mapRow .ok row → c.Expands side parts row) ∧
    ∀ (route : Route α) (attached : Nat) (r' : Router α), Router.register route r = .ok attached r' →
      ∃ template compiled, Template.ofString route.template.source = .ok template ∧
        (r.compilerFor route).compile template = .ok compiled ∧
        ((∀ path ∈ compiled.paths, ∀ k ∈ path, k.NanFree) →
          (∀ host, some host ∈ compiled.hosts → ∀ k ∈ host, k.NanFree) →
          ∃ pairs, Represents samePair pairs (compiled.paths ×ˢ compiled.hosts) ∧
            attached = pairs.length) := by
  refine ⟨fun c side parts row hrules => Compiler.expand_exact hrules side,
    fun route attached r' hregister => ?_⟩
  obtain ⟨e, hrefused⟩ | ⟨template, compiled, haccepts, haccepted⟩ := register_cases route r
  · rw [hrefused] at hregister
    cases hregister
  · rw [haccepted] at hregister
    cases hregister
    refine ⟨template, compiled, haccepts.reads, haccepts.compiles, fun hpaths hhosts => ?_⟩
    have hself : ∀ pair ∈ compiled.paths ×ˢ compiled.hosts, samePair pair pair = true := by
      intro pair hpair
      obtain ⟨hpath, hhost⟩ := List.pair_mem_product.mp hpair
      rw [samePair, sameRow_self (hpaths pair.1 hpath), Bool.true_and]
      cases hsome : pair.2 with
      | none => rfl
      | some host => exact sameRow_self (hhosts host (hsome ▸ hhost))
    have hheld : r.root.held (r.entryFor route template).position = fun _ => false :=
      funext h.held_size
    refine ⟨_, represents_newcomers samePair samePair_trans hself, ?_⟩
    rw [RouteTrie.attachAll_count h.inShape.ordered compiled.hosts fun path hpath =>
      sameRow_self (hpaths path hpath), hheld]

/-- A page whose path has two optional parts, one of which makes no difference. -/
def slashed : Route String := .new [.get] (.ofPath "/:id(int)[/][/y]") "page"

/-- A path with an optional part. -/
def lengthened : List (Part Slot) := [.text "x", .optional [.delimiter, .text "y"]]

theorem expansion_exact_slashed :
    Reachable (empty .default {} : Router String) ∧
    (∃ r', register slashed (.empty .default {}) = .ok 2 r') ∧
    (∃ compiled pairs, Represents samePair pairs (CompiledTemplate.paths compiled ×ˢ compiled.hosts) ∧
      compiled.paths.length = 4 ∧ pairs.length = 2) ∧
    Compiler.expand ⟨.default, { maxTemplateAlternatives := 1 }, fun _ => []⟩ .path lengthened
      = .error (.tooManyAlternatives 1) := by
  have hreachable : Reachable (empty .default {} : Router String) := .empty .default {}
  obtain ⟨hexpands, hcounts⟩ := Reachable.expansion_exact hreachable
  obtain ⟨r', h⟩ : ∃ r', register slashed (.empty .default {}) = .ok 2 r' :=
    exists_of_attached? (by decide +kernel)
  obtain ⟨template, compiled, hreads, hcompiles, hcount⟩ := hcounts slashed 2 r' h
  have hruns : (Template.ofString slashed.template.source).toOption.all (fun template =>
      (((empty .default {} : Router String).compilerFor slashed).compile template).toOption.all
        fun compiled => decide (compiled.paths.length = 4) &&
          compiled.paths.all (·.all fun k => !k.params.elem (.float .nan)) &&
          compiled.hosts.all (·.isNone)) = true := by decide +kernel
  rw [hreads, Except.toOption, Option.all_some, hcompiles, Except.toOption, Option.all_some,
    Bool.and_eq_true, Bool.and_eq_true, decide_eq_true_eq] at hruns
  obtain ⟨⟨hlength, hpaths⟩, hhosts⟩ := hruns
  obtain ⟨pairs, hpairs, hattached⟩ := hcount
    (fun path hpath k hk => by
      have hk := List.all_eq_true.mp (List.all_eq_true.mp hpaths path hpath) k hk
      simpa [Key.NanFree] using hk)
    (fun host hhost => by cases List.all_eq_true.mp hhosts _ hhost)
  have hexpand := (hexpands ⟨.default, { maxTemplateAlternatives := 1 }, fun _ => []⟩ .path lengthened
    [.text "x", .optional [.delimiter, .text "y"]] rfl).tooManyAlternatives
  exact ⟨hreachable, ⟨r', h⟩, ⟨compiled, pairs, hpairs, hlength, hattached.symm⟩,
    hexpand.mpr ⟨rfl, by decide⟩⟩

end Router

end UriRouting
