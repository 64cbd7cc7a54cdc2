import UriRouting.Proofs.Rule.Sharing
import UriRouting.Proofs.Trie.Lookup
import UriRouting.Proofs.Trie.Reach
/-!
Rows that share their nodes.

A row is put under keys that are the same as its own. If these take the same texts as its own, the row
leads to the same requests as on its own, whoever came first: `finds_insert` says what an insertion adds
to walks, and `finds_build` what any edits add up to.
-/

namespace UriRouting

/-! ## Variables -/

/-- The rules of two variables that compare values with texts have the same ones, check by check. -/
def Variable.ListsAlike (v w : Variable) : Prop :=
  ∀ pair ∈ v.checks.zip w.checks, pair.1.1.ListsAlike pair.2.1

instance (v w : Variable) : Decidable (v.ListsAlike w) := List.decidableBAll _ _

theorem checks_accept_congr {as bs : List (RuleSpec × Rule)}
    (ha : ∀ check ∈ as, RuleFactory.default.create check.1.name check.1.params = .ok check.2)
    (hb : ∀ check ∈ bs, RuleFactory.default.create check.1.name check.1.params = .ok check.2)
    (hsame : pairwiseSame RuleSpec.same (as.map (·.1)) (bs.map (·.1)) = true)
    (halike : ∀ pair ∈ as.zip bs, pair.1.1.ListsAlike pair.2.1) (value : String) :
    (as.all fun check => check.2.accepts value) = bs.all fun check => check.2.accepts value := by
  induction as generalizing bs with
  | nil =>
    cases bs with
    | nil => rfl
    | cons b bs => cases hsame
  | cons a as ih =>
    cases bs with
    | nil => cases hsame
    | cons b bs =>
      rw [List.map_cons, List.map_cons, pairwiseSame, Bool.and_eq_true] at hsame
      rw [List.zip_cons_cons] at halike
      obtain ⟨ha, has⟩ := List.forall_mem_cons.mp ha
      obtain ⟨hb, hbs⟩ := List.forall_mem_cons.mp hb
      obtain ⟨halike, hrest⟩ := List.forall_mem_cons.mp halike
      have hrule : a.2.accepts value = b.2.accepts value :=
        (RuleSpec.accepts_eq_iff hsame.1 ha hb).mpr halike value
      rw [List.all_cons, List.all_cons, hrule, ih has hbs hsame.2 hrest]

/-- Variables of the default factory that are the same accept the same values, if they have the same
texts to compare values with. -/
theorem Variable.accepts_congr {v w : Variable} (hv : v.MadeBy .default) (hw : w.MadeBy .default)
    (hsame : v.same w = true) (halike : v.ListsAlike w) (value : String) :
    v.accepts value = w.accepts value := by
  rw [Variable.same, Bool.and_eq_true] at hsame
  rw [Variable.accepts, Variable.accepts, checks_accept_congr hv hw hsame.2 halike]

/-! ## Patterns -/

/-- Variables under one name that accept the same values. -/
def Variable.Alike (v w : Variable) : Prop :=
  v.name = w.name ∧ ∀ value, v.accepts value = w.accepts value

inductive SegmentPart.Alike : SegmentPart → SegmentPart → Prop
  | literal (text : String) : Alike (.literal text) (.literal text)
  | var {v w : Variable} (h : v.Alike w) : Alike (.var v) (.var w)

theorem parts_alike {ps qs : List SegmentPart} (hsame : pairwiseSame SegmentPart.same ps qs = true)
    (h : ∀ v, .var v ∈ ps → ∀ w, .var w ∈ qs → v.same w = true → v.Alike w) :
    List.Forall₂ SegmentPart.Alike ps qs := by
  induction ps generalizing qs with
  | nil =>
    cases qs with
    | nil => exact .nil
    | cons q qs => cases hsame
  | cons p ps ih =>
    cases qs with
    | nil => cases hsame
    | cons q qs =>
      rw [pairwiseSame, Bool.and_eq_true] at hsame
      refine .cons ?_ (ih hsame.2 fun v hv w hw =>
        h v (List.mem_cons_of_mem p hv) w (List.mem_cons_of_mem q hw))
      cases p with
      | literal text =>
        cases q with
        | literal text' => exact (of_decide_eq_true hsame.1) ▸ .literal text
        | var w => cases hsame.1
      | var v =>
        cases q with
        | literal text => cases hsame.1
        | var w => exact .var (h v List.mem_cons_self w List.mem_cons_self hsame.1)

theorem cuts_congr {ps qs : List SegmentPart} (h : List.Forall₂ SegmentPart.Alike ps qs)
    (segment : List Char) : cuts segment ps = cuts segment qs := by
  induction h with
  | nil => rfl
  | cons hpart _ ih =>
    cases hpart with
    | literal text => rw [cuts, cuts, ih]
    | var _ => rw [cuts, cuts, ih]

theorem vars_alike {ps qs : List SegmentPart} (h : List.Forall₂ SegmentPart.Alike ps qs) :
    List.Forall₂ Variable.Alike (ps.filterMap SegmentPart.var?) (qs.filterMap SegmentPart.var?) := by
  induction h with
  | nil => exact .nil
  | cons hpart _ ih =>
    cases hpart with
    | literal text => exact ih
    | var hv => exact .cons hv ih

/-- Values for variables that are alike. -/
def ValuesAlike (as bs : List (Variable × String)) : Prop :=
  List.Forall₂ (fun a b => a.1.Alike b.1 ∧ a.2 = b.2) as bs

theorem valuesAlike_zip {vs ws : List Variable} (h : List.Forall₂ Variable.Alike vs ws)
    (values : List String) : ValuesAlike (vs.zip values) (ws.zip values) := by
  induction h generalizing values with
  | nil => exact .nil
  | cons hv _ ih =>
    cases values with
    | nil => exact .nil
    | cons value values => exact .cons ⟨hv, rfl⟩ (ih values)

theorem values?_alike {p q : SegmentPattern} (h : List.Forall₂ SegmentPart.Alike p.parts q.parts)
    (segment : String) : Option.Rel ValuesAlike (p.values? segment) (q.values? segment) := by
  obtain ⟨ps⟩ := p
  obtain ⟨qs⟩ := q
  dsimp only at h
  have hcut : Option.Rel ValuesAlike
      ((cuts segment.toList ps).head?.join.map fun values =>
        (SegmentPattern.vars ⟨ps⟩).zip (values.map String.ofList))
      ((cuts segment.toList qs).head?.join.map fun values =>
        (SegmentPattern.vars ⟨qs⟩).zip (values.map String.ofList)) := by
    rw [cuts_congr h]
    cases (cuts segment.toList qs).head?.join with
    | none => exact .none
    | some values => exact .some (valuesAlike_zip (vars_alike h) _)
  cases h with
  | nil => exact hcut
  | @cons part part' ps qs hpart hrest =>
    cases hpart with
    | literal text => exact hcut
    | @var v w hv =>
      cases hrest with
      | nil => exact .some (.cons ⟨hv, rfl⟩ .nil)
      | cons _ _ => exact hcut

theorem all_accepts_congr {as bs : List (Variable × String)} (h : ValuesAlike as bs) :
    (as.all fun value => value.1.accepts value.2) = bs.all fun value => value.1.accepts value.2 := by
  induction h with
  | nil => rfl
  | cons hvalue _ ih => rw [List.all_cons, List.all_cons, hvalue.1.2, hvalue.2, ih]

theorem captured_congr {as bs : List (Variable × String)} (h : ValuesAlike as bs) :
    (as.map fun value => (value.1.name, value.2)) = bs.map fun value => (value.1.name, value.2) := by
  induction h with
  | nil => rfl
  | cons hvalue _ ih => rw [List.map_cons, List.map_cons, hvalue.1.1, hvalue.2, ih]

/-- Patterns of parts that are alike capture the same. -/
theorem capture?_congr {p q : SegmentPattern} (h : List.Forall₂ SegmentPart.Alike p.parts q.parts)
    (segment : String) : p.capture? segment = q.capture? segment := by
  have hvalues := values?_alike h segment
  rw [SegmentPattern.capture?, SegmentPattern.capture?]
  cases hp : p.values? segment with
  | none =>
    rw [hp] at hvalues
    cases hq : q.values? segment with
    | none => rfl
    | some bs =>
      rw [hq] at hvalues
      cases hvalues
  | some as =>
    rw [hp] at hvalues
    cases hq : q.values? segment with
    | none =>
      rw [hq] at hvalues
      cases hvalues
    | some bs =>
      rw [hq] at hvalues
      cases hvalues with
      | some halike =>
        rw [Option.bind_some, Option.bind_some, all_accepts_congr halike, captured_congr halike]

/-! ## Keys -/

/-- The keys of `S` that are the same as `k` take the same texts as `k` and capture the same from
them. -/
def AlikeTo (S : Key → Prop) (k : Key) : Prop := ∀ k', S k' → k'.same k = true →
  ∀ segment captures, k'.Takes segment captures ↔ k.Takes segment captures

theorem alikeTo_of_alike {S : Key → Prop} {k : Key}
    (h : ∀ v ∈ k.vars, ∀ k', S k' → ∀ w ∈ k'.vars, v.same w = true → v.Alike w) : AlikeTo S k := by
  intro k' hk' hsame segment captures
  cases k with
  | literal text =>
    cases k' with
    | literal text' => rw [of_decide_eq_true hsame]
    | pattern q => cases hsame
  | pattern p =>
    cases k' with
    | literal text => cases hsame
    | pattern q =>
      have halike : List.Forall₂ SegmentPart.Alike p.parts q.parts :=
        parts_alike ((p.same_comm q).trans hsame) fun v hv w hw =>
          h v (var_mem_vars hv) _ hk' w (var_mem_vars hw)
      rw [takes_pattern_iff, takes_pattern_iff, capture?_congr halike]

theorem alikeTo_of_listsAlike {S : Key → Prop} (hmade : ∀ k, S k → k.MadeBy .default) {k : Key}
    (hk : k.MadeBy .default)
    (h : ∀ v ∈ k.vars, ∀ k', S k' → ∀ w ∈ k'.vars, v.same w = true → v.ListsAlike w) : AlikeTo S k := by
  refine alikeTo_of_alike fun v hv k' hk' w hw hvw => ?_
  have hname := hvw
  rw [Variable.same, Bool.and_eq_true, decide_eq_true_eq] at hname
  exact ⟨hname.1, Variable.accepts_congr (hk v hv) (hmade _ hk' w hw) hvw (h v hv _ hk' w hw hvw)⟩

/-! ## Walks -/

namespace Trie

variable {β : Type} {fresh : β} {update : β → β}

theorem rowTakes_literal_iff {text segment : String} {row : List Key} {rest : List String}
    {captures : Captures} : RowTakes (.literal text :: row) (segment :: rest) captures ↔
      segment = text ∧ RowTakes row rest captures := by
  constructor
  · intro h
    cases h with
    | cons head tail =>
      obtain ⟨hsegment, rfl⟩ := takes_literal_iff.mp head
      exact ⟨hsegment, tail⟩
  · intro h
    obtain ⟨rfl, h⟩ := h
    exact .cons (.literal segment) h

theorem rowTakes_pattern_iff {p : SegmentPattern} {segment : String} {row : List Key}
    {rest : List String} {captures : Captures} :
    RowTakes (.pattern p :: row) (segment :: rest) captures ↔
      ∃ here later, p.capture? segment = some here ∧ RowTakes row rest later ∧
        captures = here ++ later := by
  constructor
  · intro h
    cases h with
    | cons head tail => exact ⟨_, _, takes_pattern_iff.mp head, tail, rfl⟩
  · intro h
    obtain ⟨here, later, hcapture, htail, rfl⟩ := h
    exact .cons (takes_pattern_iff.mpr hcapture) htail

/-- A walk along segments comes to a value with `Q`, and captures these on its way. -/
def Finds (Q : β → Prop) (t : Trie β) (segments : List String) (captures : Captures) : Prop :=
  ∃ a ∈ t.arrivals segments, Q a.value ∧ a.captures = captures

/-- What a walk finds behind a pattern. -/
def FindsBehind (Q : β → Prop) (segment : String) (rest : List String) (captures : Captures)
    (child : SegmentPattern × Trie β) : Prop :=
  ∃ here later, child.1.capture? segment = some here ∧ child.2.Finds Q rest later ∧
    captures = here ++ later

section

variable {Q : β → Prop} {segments : List String} {captures : Captures}

theorem finds_nil {leaf : β} {literals : TextIndex (Trie β)}
    {patterns : List (SegmentPattern × Trie β)} :
    (node leaf literals patterns).Finds Q [] captures ↔ Q leaf ∧ captures = [] := by
  rw [Finds, arrivals]
  constructor
  · intro h
    obtain ⟨a, ha, hQ, rfl⟩ := h
    rw [List.mem_singleton] at ha
    subst ha
    exact ⟨hQ, rfl⟩
  · intro h
    exact ⟨_, List.mem_cons_self, h.1, h.2.symm⟩

theorem not_finds_single (hfresh : ¬ Q fresh) : ¬ (single fresh).Finds Q segments captures := by
  intro h
  obtain ⟨a, ha, hQ, -⟩ := h
  obtain ⟨s, hs, hvalue⟩ := at_of_arrival ha
  rw [← hvalue, (at_single hs).2] at hQ
  exact hfresh hQ

/-- A walk goes on below the child of its first segment, or below none, and behind each pattern. -/
theorem finds_cons (hfresh : ¬ Q fresh) {leaf : β} {literals : TextIndex (Trie β)}
    {patterns : List (SegmentPattern × Trie β)} {segment : String} {rest : List String} :
    (node leaf literals patterns).Finds Q (segment :: rest) captures ↔
      ((literals.find? segment).getD (single fresh)).Finds Q rest captures ∨
        ∃ child ∈ patterns, FindsBehind Q segment rest captures child := by
  rw [Finds, arrivals]
  simp only [List.mem_append, or_and_right, exists_or]
  refine or_congr ?_ ?_
  · cases literals.find? segment with
    | none => simpa using not_finds_single hfresh
    | some child => simp [Finds, Arrival.behind]
  · simp only [List.mem_flatMap]
    constructor
    · intro h
      obtain ⟨a, ⟨child, hchild, ha⟩, hQ, rfl⟩ := h
      refine ⟨child, hchild, ?_⟩
      split at ha
      · next here hcapture =>
        obtain ⟨b, hb, rfl⟩ := List.mem_map.mp ha
        exact ⟨here, b.captures, hcapture, ⟨b, hb, hQ, rfl⟩, rfl⟩
      · cases ha
    · intro h
      obtain ⟨child, hchild, here, later, hcapture, ⟨a, ha, hQ, rfl⟩, rfl⟩ := h
      refine ⟨a.behind (.pattern child.1) here, ⟨child, hchild, ?_⟩, hQ, rfl⟩
      simp only [hcapture]
      exact List.mem_map.mpr ⟨a, ha, rfl⟩

end

/-- What a list of children holds after one is altered: what it held before, and what is new. -/
theorem exists_mem_alterPattern {p : SegmentPattern} {f : Option (Trie β) → Trie β}
    {patterns : List (SegmentPattern × Trie β)} {H : SegmentPattern × Trie β → Prop} {R : Prop}
    (hnew : H (p, f none) ↔ R)
    (hold : ∀ q t, (q, t) ∈ patterns → q.same p = true → (H (q, f (some t)) ↔ H (q, t) ∨ R)) :
    (∃ child ∈ alterPattern p f patterns, H child) ↔ (∃ child ∈ patterns, H child) ∨ R := by
  induction patterns with
  | nil => simp [alterPattern, hnew]
  | cons child rest ih =>
    obtain ⟨q, t⟩ := child
    rw [alterPattern]
    split
    · next hsame =>
      have hhead := hold q t List.mem_cons_self hsame
      rw [List.exists_mem_cons_iff, List.exists_mem_cons_iff, hhead]
      exact or_right_comm
    · have hrest := ih fun q' t' hchild => hold q' t' (List.mem_cons_of_mem _ hchild)
      rw [List.exists_mem_cons_iff, List.exists_mem_cons_iff, hrest]
      exact or_assoc.symm

/-! ### Insertions -/

/-- All keys of a trie are in `S`. -/
def KeysIn (S : Key → Prop) (t : Trie β) : Prop := ∀ path s, At t path s → ∀ k ∈ path, S k

section

variable {S : Key → Prop} {Good Q : β → Prop} {R : Prop}

theorem KeysIn.literal {leaf : β} {literals : TextIndex (Trie β)}
    {patterns : List (SegmentPattern × Trie β)} (h : (node leaf literals patterns).KeysIn S)
    {text : String} {child : Trie β} (hchild : (text, child) ∈ literals.entries) : child.KeysIn S :=
  fun _ s hs k hk => h _ s (.literal hchild hs) k (List.mem_cons_of_mem _ hk)

theorem KeysIn.pattern {leaf : β} {literals : TextIndex (Trie β)}
    {patterns : List (SegmentPattern × Trie β)} (h : (node leaf literals patterns).KeysIn S)
    {child : SegmentPattern × Trie β} (hchild : child ∈ patterns) :
    S (.pattern child.1) ∧ child.2.KeysIn S :=
  ⟨h _ child.2 (.pattern hchild (.root _)) _ List.mem_cons_self,
    fun _ s hs k hk => h _ s (.pattern hchild hs) k (List.mem_cons_of_mem _ hk)⟩

theorem keysIn_single {leaf : β} : (single leaf).KeysIn S := by
  intro path s hs k hk
  rw [(at_single hs).1] at hk
  cases hk

/-- What an insertion below a pattern adds to what is found behind it. -/
theorem findsBehind_insert {p q : SegmentPattern} {row : List Key} {t t' : Trie β} {segment : String}
    {rest : List String} (hcapture : R → q.capture? segment = p.capture? segment)
    (hbelow : ∀ captures, t'.Finds Q rest captures ↔
      t.Finds Q rest captures ∨ (R ∧ RowTakes row rest captures)) {captures : Captures} :
    FindsBehind Q segment rest captures (q, t') ↔ FindsBehind Q segment rest captures (q, t) ∨
      (R ∧ RowTakes (.pattern p :: row) (segment :: rest) captures) := by
  rw [rowTakes_pattern_iff]
  constructor
  · intro h
    obtain ⟨here, later, hhere, hfinds, hcaptures⟩ := h
    obtain hfinds | ⟨hR, htakes⟩ := (hbelow later).mp hfinds
    · exact Or.inl ⟨here, later, hhere, hfinds, hcaptures⟩
    · exact Or.inr ⟨hR, here, later, (hcapture hR).symm.trans hhere, htakes, hcaptures⟩
  · intro h
    obtain ⟨here, later, hhere, hfinds, hcaptures⟩ | ⟨hR, here, later, hhere, htakes, hcaptures⟩ := h
    · exact ⟨here, later, hhere, (hbelow later).mpr (Or.inl hfinds), hcaptures⟩
    · exact ⟨here, later, (hcapture hR).trans hhere, (hbelow later).mpr (Or.inr ⟨hR, htakes⟩), hcaptures⟩

variable {leaf : β} {literals : TextIndex (Trie β)} {patterns : List (SegmentPattern × Trie β)}
  {row : List Key} {segments : List String} {captures : Captures}

/-- Inserting along a literal is inserting below its child, or below a new one. -/
theorem finds_insert_literal (hsorted : literals.Sorted) (hfresh : ¬ Q fresh) {text : String}
    (hbelow : ∀ segments,
      (insert fresh update row ((literals.find? text).getD (single fresh))).Finds Q segments captures ↔
        ((literals.find? text).getD (single fresh)).Finds Q segments captures ∨
          (R ∧ RowTakes row segments captures)) :
    (insert fresh update (.literal text :: row) (node leaf literals patterns)).Finds Q segments captures ↔
      (node leaf literals patterns).Finds Q segments captures ∨
        (R ∧ RowTakes (.literal text :: row) segments captures) := by
  rw [Trie.insert]
  cases segments with
  | nil =>
    rw [finds_nil, finds_nil, or_iff_left fun h => ?_]
    cases h.2
  | cons segment rest =>
    rw [finds_cons hfresh, finds_cons hfresh, TextIndex.find?_alter hsorted, rowTakes_literal_iff]
    by_cases heq : segment = text
    · subst heq
      rw [if_pos rfl, Option.getD_some, hbelow rest, or_right_comm]
      simp only [true_and]
    · rw [if_neg heq]
      simp only [heq, false_and, and_false, or_false]

/-- Inserting along a pattern is inserting behind one that is the same, or behind a new one. -/
theorem finds_insert_pattern {p : SegmentPattern} (hfresh : ¬ Q fresh)
    (hcapture : ∀ child ∈ patterns, child.1.same p = true → R →
      ∀ segment, child.1.capture? segment = p.capture? segment)
    (hbelow : ∀ t, t = single fresh ∨ (∃ child ∈ patterns, child.2 = t) → ∀ segments captures,
      (t.insert fresh update row).Finds Q segments captures ↔
        t.Finds Q segments captures ∨ (R ∧ RowTakes row segments captures)) :
    (insert fresh update (.pattern p :: row) (node leaf literals patterns)).Finds Q segments captures ↔
      (node leaf literals patterns).Finds Q segments captures ∨
        (R ∧ RowTakes (.pattern p :: row) segments captures) := by
  rw [Trie.insert]
  cases segments with
  | nil =>
    rw [finds_nil, finds_nil, or_iff_left fun h => ?_]
    cases h.2
  | cons segment rest =>
    rw [finds_cons hfresh, finds_cons hfresh, or_assoc]
    refine or_congr_right (exists_mem_alterPattern ?_ fun q t hmem hsame => ?_)
    · have hnew := hbelow (single fresh) (Or.inl rfl) rest
      refine (findsBehind_insert (fun _ => rfl) hnew).trans (or_iff_right fun h => ?_)
      obtain ⟨here, later, -, hfinds, -⟩ := h
      exact not_finds_single hfresh hfinds
    · exact findsBehind_insert (fun hR => hcapture (q, t) hmem hsame hR segment)
        (hbelow t (Or.inr ⟨(q, t), hmem, rfl⟩) rest)

/-- After an insertion a walk finds what it found before and, if the inserted row takes the segments,
what the update brings in. -/
theorem finds_insert (hrow : R → ∀ k ∈ row, AlikeTo S k) {t : Trie β} (hkeys : t.KeysIn S)
    (hordered : t.Ordered Good) (hgood : Good fresh) (hfresh : ¬ Q fresh)
    (hupdate : ∀ b, Good b → (Q (update b) ↔ Q b ∨ R)) :
    (t.insert fresh update row).Finds Q segments captures ↔
      t.Finds Q segments captures ∨ (R ∧ RowTakes row segments captures) := by
  induction row generalizing t segments captures with
  | nil =>
    obtain ⟨leaf, literals, patterns⟩ := t
    have hleaf : Good leaf := (hordered [] _ (.root _)).2
    rw [Trie.insert]
    cases segments with
    | nil =>
      rw [finds_nil, finds_nil, hupdate leaf hleaf, rowTakes_nil_iff]
      tauto
    | cons segment rest =>
      rw [finds_cons hfresh, finds_cons hfresh]
      refine ⟨Or.inl, fun h => h.resolve_right fun h => ?_⟩
      cases h.2
  | cons k row ih =>
    obtain ⟨leaf, literals, patterns⟩ := t
    have hrest : R → ∀ k' ∈ row, AlikeTo S k' := fun hR k' hk' =>
      hrow hR k' (List.mem_cons_of_mem k hk')
    cases k with
    | literal text =>
      have hsorted : literals.Sorted := (hordered [] _ (.root _)).1
      refine finds_insert_literal hsorted hfresh fun _ => ?_
      cases hfind : literals.find? text with
      | none => exact ih hrest keysIn_single (ordered_single hgood)
      | some child =>
        exact ih hrest (hkeys.literal (hsorted.mem_entries_iff.mpr hfind)) (hordered.literal hfind)
    | pattern p =>
      refine finds_insert_pattern hfresh (fun child hchild hsame hR segment => ?_) fun t ht _ _ => ?_
      · have hcapture := hrow hR (.pattern p) List.mem_cons_self _ (hkeys.pattern hchild).1 hsame segment
        refine Option.ext fun captures => ?_
        rw [← takes_pattern_iff, ← takes_pattern_iff]
        exact hcapture captures
      · obtain rfl | ⟨child, hchild, rfl⟩ := ht
        · exact ih hrest keysIn_single (ordered_single hgood)
        · exact ih hrest (hkeys.pattern hchild).2 (hordered.pattern hchild)

end

/-! ### Edits -/

section

variable {S : Key → Prop} (Good : β → Prop) {Q : β → Prop}

/-- A walk through a trie that was built by edits finds what each of them brings in along its own row.
No other edit matters, as long as the keys of these rows are like those that are the same. -/
theorem finds_build {edits : List (Edit β)} (hE : Over S edits) (hgood : Good fresh)
    (hgoods : ∀ e ∈ edits, ∀ b, Good b → Good (e.update b)) (hfresh : ¬ Q fresh)
    (hupdate : ∀ e ∈ edits, ∀ b, Good b → (Q (e.update b) ↔ Q b ∨ Q (e.update fresh)))
    (halike : ∀ e ∈ edits, Q (e.update fresh) → ∀ k ∈ e.row, AlikeTo S k) {segments : List String}
    {captures : Captures} : (Trie.build fresh edits).Finds Q segments captures ↔
      ∃ e ∈ edits, Q (e.update fresh) ∧ RowTakes e.row segments captures := by
  induction edits using List.reverseRecOn with
  | nil =>
    refine iff_of_false (not_finds_single hfresh) fun h => ?_
    obtain ⟨e, he, -⟩ := h
    cases he
  | append_singleton edits e ih =>
    have hbefore : ∀ e' ∈ edits, e' ∈ edits ++ [e] := fun e' he' => List.mem_append_left [e] he'
    have hlast : e ∈ edits ++ [e] := List.mem_append_right edits List.mem_cons_self
    have hnodes : ∀ path s, At (Trie.build fresh edits) path s →
        (∀ k ∈ path, S k) ∧ s.literals.Sorted ∧ Good s.leaf := fun path s hs =>
      build_good Good hE.left hgood (fun e' he' => hgoods e' (hbefore e' he')) hs
    have ih := ih hE.left (fun e' he' => hgoods e' (hbefore e' he'))
      (fun e' he' => hupdate e' (hbefore e' he')) fun e' he' => halike e' (hbefore e' he')
    rw [build_concat, finds_insert (halike e hlast) (fun path s hs => (hnodes path s hs).1)
      (fun path s hs => (hnodes path s hs).2) hgood hfresh (hupdate e hlast), ih]
    simp only [List.mem_append, List.mem_singleton, or_and_right, exists_or, exists_eq_left]

end

end Trie

end UriRouting
