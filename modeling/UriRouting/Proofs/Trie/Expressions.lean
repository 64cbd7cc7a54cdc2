import UriRouting.Pattern.Parser
import UriRouting.Proofs.Pattern.Matches
import UriRouting.Proofs.Pattern.Room
import UriRouting.Proofs.Trie.Cuts
/-!
Rows of parts as expressions.

A row is written as an expression: texts with a backslash in front of what would mean something else, and
a group for each variable that takes as little as it can. `SegmentPattern.ofString_expression` says that the
expression is read as it is meant and is too large when the row does not fit, and
`SegmentPattern.finds_iff_cut` that it matches a segment in just the ways in which the row cuts it.
-/

namespace UriRouting

/-! ## Writing -/

namespace SegmentPart

/-- A character of a text, behind a backslash if it would mean something else. -/
def escape (c : Char) : List Char := if Pattern.isMeta c then ['\\', c] else [c]

def written : SegmentPart → List Char
  | literal text => text.toList.flatMap escape
  | var _ => "(.+?)".toList

/-- What a part is read as, item by item. -/
def items : SegmentPart → List Pattern
  | literal text => text.toList.map fun c => .char (.single c)
  | var _ => [.group true (.repeated (.char (.complement (.single '\n'))) 1 none)]

end SegmentPart

namespace SegmentPattern

def expression (p : SegmentPattern) : String :=
  String.ofList ('^' :: (p.parts.flatMap SegmentPart.written ++ ['$']))

def reading (p : SegmentPattern) : Pattern :=
  .concats (.assertion .textStart :: (p.parts.flatMap SegmentPart.items ++ [.assertion .textEnd]))

end SegmentPattern

/-! ## Reading -/

namespace Pattern

section

variable {fuel : Nat} {names : List String} {row : OpenRow} {rest : List Char}

theorem readRow_value : readRow (fuel + 4) {} names row ("(.+?)".toList ++ rest)
    = readRow (fuel + 3) {} names
      (row.add (.group true (.repeated (.char (.complement (.single '\n'))) 1 none))) rest := rfl

/-- No meta character is a digit or a letter that means something behind a backslash. -/
theorem plain_of_isMeta {c : Char} (h : isMeta c = true) :
    (Numeric.isDigit c || (c = 'x' || c = 'u' || c = 'U') || (c = 'p' || c = 'P')
      || "dswDSW".toList.contains c) = false := by
  have hall : ("\\.+*?()|[]\x7b\x7d^$#&-~".toList.all fun d =>
      !(Numeric.isDigit d || (d = 'x' || d = 'u' || d = 'U') || (d = 'p' || d = 'P')
        || "dswDSW".toList.contains d)) = true := by
    decide +kernel
  exact (Bool.not_eq_true' _).mp (List.all_eq_true.mp hall c (List.contains_iff_mem.mp h))

theorem readEscape_of_isMeta {c : Char} (h : isMeta c = true) :
    readEscape {} (c :: rest) = .ok (.literal c, rest) := by
  obtain ⟨hothers, hclass⟩ := Bool.or_eq_false_iff.mp (plain_of_isMeta h)
  obtain ⟨hothers, hproperty⟩ := Bool.or_eq_false_iff.mp hothers
  obtain ⟨hdigit, hpoint⟩ := Bool.or_eq_false_iff.mp hothers
  have hescapable : isEscapable c = true := by
    rw [isEscapable, h, Bool.true_or]
  unfold readEscape
  dsimp only
  rw [if_neg (ne_true_of_eq_false hdigit), if_neg (ne_true_of_eq_false hpoint),
    if_neg (ne_true_of_eq_false hproperty), if_neg (ne_true_of_eq_false hclass), if_pos hescapable]

/-- What begins no group, no class, no other alternative and no repetition is an atom. -/
theorem readRow_atom {c : Char} {cs : List Char} {p : Pattern} (h : c ∉ ")|([?*+\x7b".toList)
    (hatom : readAtom {} (c :: cs) = .ok (p, rest)) :
    readRow (fuel + 1) {} names row (c :: cs) = readRow fuel {} names (row.add p) rest := by
  have hskip : Flags.skip {} (c :: cs) = c :: cs := rfl
  rw [readRow, hskip]
  split
  · next heq => cases heq
  all_goals first
    | next heq =>
      cases heq
      exact absurd (by decide) h
    | rw [hatom]
      rfl

theorem readRow_char (c : Char) : readRow (fuel + 1) {} names row (SegmentPart.escape c ++ rest)
    = readRow fuel {} names (row.add (.char (.single c))) rest := by
  unfold SegmentPart.escape
  split
  · next hmeta =>
    refine readRow_atom (by decide) ?_
    show readAtom {} ('\\' :: c :: rest) = _
    rw [readAtom, readEscape_of_isMeta hmeta]
    rfl
  · next hmeta =>
    have hplain : ∀ d : Char, isMeta d = true → c ≠ d := by
      rintro d hd rfl
      exact hmeta hd
    refine readRow_atom (fun hmem => ?_) ?_
    · have hspecial : ")|([?*+\x7b".toList.all isMeta = true := by decide +kernel
      exact hmeta (List.all_eq_true.mp hspecial c hmem)
    · show readAtom {} (c :: rest) = _
      rw [readAtom] <;> first | rfl | exact hplain _ (by decide)

theorem length_escape (c : Char) : 0 < (SegmentPart.escape c).length := by
  unfold SegmentPart.escape
  split <;> exact Nat.succ_pos _

/-- A text is read character by character, and each takes fuel. -/
theorem readRow_text (cs : List Char) (h : (cs.flatMap SegmentPart.escape ++ rest).length < fuel) :
    ∃ left, rest.length < left ∧
      readRow fuel {} names row (cs.flatMap SegmentPart.escape ++ rest)
        = readRow left {} names ((cs.map fun c => .char (.single c)).foldl OpenRow.add row) rest := by
  induction cs generalizing fuel row with
  | nil => exact ⟨fuel, h, rfl⟩
  | cons c cs ih =>
    rw [List.flatMap_cons, List.append_assoc] at h ⊢
    have hlength := length_escape c
    rw [List.length_append] at h
    obtain ⟨fuel, rfl⟩ : ∃ n, fuel = n + 1 := ⟨fuel - 1, by omega⟩
    rw [readRow_char]
    exact ih (by omega)

/-- What is read up to the end, with an end of the text behind it. -/
theorem readRow_parts (parts : List SegmentPart)
    (h : (parts.flatMap SegmentPart.written ++ ['$']).length < fuel) :
    readRow fuel {} names row (parts.flatMap SegmentPart.written ++ ['$'])
      = .ok (((parts.flatMap SegmentPart.items ++ [assertion .textEnd]).foldl OpenRow.add row).close,
          names, []) := by
  induction parts generalizing fuel row with
  | nil =>
    obtain ⟨fuel, rfl⟩ : ∃ n, fuel = n + 2 := Nat.exists_eq_add_of_le' h
    rfl
  | cons part parts ih =>
    rw [List.flatMap_cons, List.append_assoc] at h ⊢
    rw [List.flatMap_cons, List.append_assoc, List.foldl_append]
    cases part with
    | literal text =>
      obtain ⟨left, hleft, hread⟩ := readRow_text text.toList h
      exact hread.trans (ih hleft)
    | var v =>
      have hlength : (SegmentPart.var v).written.length = 5 := rfl
      rw [List.length_append, hlength] at h
      obtain ⟨fuel, rfl⟩ : ∃ n, fuel = n + 4 := ⟨fuel - 4, by omega⟩
      exact readRow_value.trans (ih (by omega))

end

theorem close_foldl_add (ps : List Pattern) (items : List (Option Pattern)) :
    (ps.foldl OpenRow.add ⟨[], items⟩).close
      = concats (items.reverse.map (·.getD .empty) ++ ps) := by
  induction ps generalizing items with
  | nil => rw [List.append_nil]; rfl
  | cons p ps ih =>
    rw [List.foldl_cons, OpenRow.add, ih, List.reverse_cons, List.map_append, List.append_assoc]
    rfl

end Pattern

theorem SegmentPattern.readRow_expression (p : SegmentPattern) :
    Pattern.readRow (p.expression.toList.length + 1) {} [] {} p.expression.toList
      = .ok (p.reading, [], []) := by
  rw [expression, String.toList_ofList, List.length_cons]
  show Pattern.readRow (_ + 1) {} [] (Pattern.OpenRow.add {} (.assertion .textStart)) _ = _
  rw [Pattern.readRow_parts _ (Nat.lt_succ_self _), reading]
  exact congrArg (fun q => Except.ok (q, [], [])) (Pattern.close_foldl_add _ _)

/-! ## Size -/

theorem CharSet.single?_single (c : Char) : (CharSet.single c).single? = some c := by
  unfold single range
  rw [if_neg (lt_irrefl c)]
  split
  · next h =>
    have hc := Char.ofNat_toNat c
    rw [h] at hc ⊢
    exact congrArg some hc
  · show (if _ then _ else _) = _
    rw [if_pos rfl, Char.ofNat_toNat]

theorem Pattern.levels_concats {ps : List Pattern} {n : Nat} (h : ∀ p ∈ ps, p.levels ≤ n) :
    (concats ps).levels ≤ n + 1 := by
  induction ps with
  | nil => exact Nat.zero_le _
  | cons p ps ih =>
    obtain ⟨hp, hps⟩ := List.forall_mem_cons.mp h
    cases ps with
    | nil => exact hp.trans (Nat.le_succ n)
    | cons q rest =>
      refine Nat.max_le.mpr ⟨Nat.add_le_add_right hp 1, ?_⟩
      cases rest with
      | nil =>
        have hq := hps q List.mem_cons_self
        cases q with
        | concat => exact hq.trans (Nat.le_succ n)
        | _ => exact Nat.add_le_add_right hq 1
      | cons => exact ih hps

namespace Plan

/-- What is no row of others and no choice between others. -/
def isAtom : Plan → Bool
  | row _ | choice _ => false
  | _ => true

variable {ps qs : List Plan}

theorem parts_ofRow (h : ∀ p ∈ ps, p.isAtom = true) : (ofRow ps).parts = ps := by
  unfold ofRow
  split
  · next p =>
    have hp := h p List.mem_cons_self
    cases p with
    | row | choice => cases hp
    | _ => rfl
  · rfl

theorem alternatives_ofRow (h : ∀ p ∈ ps, p.isAtom = true) : (ofRow ps).alternatives = [ofRow ps] := by
  unfold ofRow
  split
  · next p =>
    have hp := h p List.mem_cons_self
    cases p with
    | row | choice => cases hp
    | _ => rfl
  · rfl

theorem either_ofRow (h : ∀ p ∈ ps, p.isAtom = true) : either [ofRow ps] = ofRow ps := by
  unfold either
  rw [List.flatMap_singleton, alternatives_ofRow h]

theorem isAtom_prepend {p : Plan} (hp : p.isAtom = true) (h : ∀ q ∈ ps, q.isAtom = true) :
    ∀ q ∈ prepend p ps, q.isAtom = true := by
  unfold prepend
  split
  · exact List.forall_mem_cons.mpr ⟨rfl, (List.forall_mem_cons.mp h).2⟩
  · exact List.forall_mem_cons.mpr ⟨hp, h⟩

theorem ofRow_append (hps : ∀ p ∈ ps, p.isAtom = true) (hqs : ∀ q ∈ qs, q.isAtom = true) :
    (ofRow ps).append (ofRow qs) = ofRow (ps.foldr prepend qs) := by
  rw [append, parts_ofRow hps, parts_ofRow hqs]

theorem isAtom_foldr_prepend (hps : ∀ p ∈ ps, p.isAtom = true) (hqs : ∀ q ∈ qs, q.isAtom = true) :
    ∀ p ∈ ps.foldr prepend qs, p.isAtom = true := by
  induction ps with
  | nil => exact hqs
  | cons p ps ih =>
    obtain ⟨hp, hps⟩ := List.forall_mem_cons.mp hps
    exact isAtom_prepend hp (ih hps)

/-- Patterns in a row are planned one by one, and texts that meet become one. -/
theorem ofPattern_concats {items : List Pattern} (h : ∀ p ∈ items, (ofPattern p).isAtom = true) :
    ofPattern (.concats items) = ofRow ((items.map ofPattern).foldr prepend []) := by
  induction items with
  | nil => rfl
  | cons p items ih =>
    obtain ⟨hp, hitems⟩ := List.forall_mem_cons.mp h
    have hatoms : ∀ q ∈ items.map ofPattern, q.isAtom = true := List.forall_mem_map.mpr hitems
    have hlater := isAtom_foldr_prepend hatoms (List.forall_mem_nil _)
    cases items with
    | nil => cases hplan : ofPattern p <;> simp [hplan, prepend, ofRow, Pattern.concats]
    | cons q items =>
      have hone : ofPattern p = ofRow [ofPattern p] := rfl
      show either [(ofPattern p).append (ofPattern (.concats (q :: items)))] = _
      rw [ih hitems, hone, ofRow_append (by simpa using hp) hlater]
      exact either_ofRow (isAtom_prepend hp hlater)

theorem foldr_prepend_text (c : Char) (cs : List Char) :
    ((c :: cs).map fun d => text [d]).foldr prepend qs = prepend (text (c :: cs)) qs := by
  induction cs generalizing c with
  | nil => rfl
  | cons d cs ih =>
    rw [List.map_cons, List.foldr_cons, ih]
    cases qs with
    | nil => rfl
    | cons q qs => cases q <;> rfl

theorem ofPattern_char (c : Char) : ofPattern (.char (.single c)) = text [c] := by
  show either [ofSet (.single c)] = _
  unfold ofSet
  rw [CharSet.single?_single]
  rfl

end Plan

namespace SegmentPart

theorem isAtom_items (part : SegmentPart) : ∀ p ∈ part.items, (Plan.ofPattern p).isAtom = true := by
  cases part with
  | literal text =>
    refine List.forall_mem_map.mpr fun c _ => ?_
    rw [Plan.ofPattern_char]
    rfl
  | var v => exact List.forall_mem_singleton.mpr rfl

theorem levels_items (part : SegmentPart) : ∀ p ∈ part.items, p.levels ≤ 2 := by
  cases part with
  | literal text => exact List.forall_mem_map.mpr fun c _ => Nat.zero_le _
  | var v => exact List.forall_mem_singleton.mpr (Nat.le_refl _)

/-- The plan of a part is that of its items. -/
theorem plan_append (part : SegmentPart) {qs : List Plan} (h : ∀ q ∈ qs, q.isAtom = true) :
    part.plan.append (.ofRow qs) = .ofRow ((part.items.map Plan.ofPattern).foldr Plan.prepend qs) := by
  cases part with
  | literal text =>
    have hitems : (literal text).items.map Plan.ofPattern = text.toList.map fun c => .text [c] := by
      rw [items, List.map_map]
      exact List.map_congr_left fun c _ => Plan.ofPattern_char c
    rw [hitems, plan, Plan.ofText]
    cases text.toList with
    | nil =>
      exact Plan.ofRow_append (List.forall_mem_nil _) h
    | cons c cs =>
      have htext : ∀ q ∈ [Plan.text (c :: cs)], q.isAtom = true := List.forall_mem_singleton.mpr rfl
      rw [Plan.foldr_prepend_text, if_neg (List.cons_ne_nil c cs)]
      exact Plan.ofRow_append htext h
  | var v =>
    have hvar : ∀ q ∈ [(var v).plan], q.isAtom = true := List.forall_mem_singleton.mpr rfl
    exact Plan.ofRow_append hvar h

end SegmentPart

namespace SegmentPattern

theorem isAtom_items (parts : List SegmentPart) :
    ∀ q ∈ (parts.flatMap SegmentPart.items).map Plan.ofPattern, q.isAtom = true := by
  refine List.forall_mem_map.mpr fun q hq => ?_
  obtain ⟨part, -, hq⟩ := List.mem_flatMap.mp hq
  exact part.isAtom_items q hq

theorem foldr_plan_append (parts : List SegmentPart) {qs : List Plan} (h : ∀ q ∈ qs, q.isAtom = true) :
    (parts.map SegmentPart.plan).foldr Plan.append (Plan.ofRow qs)
      = Plan.ofRow (((parts.flatMap SegmentPart.items).map Plan.ofPattern).foldr Plan.prepend qs) := by
  induction parts with
  | nil => rfl
  | cons part parts ih =>
    rw [List.map_cons, List.foldr_cons, ih,
      part.plan_append (Plan.isAtom_foldr_prepend (isAtom_items parts) h), List.flatMap_cons,
      List.map_append, List.foldr_append]

/-- The expression of a row is planned as the row is. -/
theorem ofPattern_reading (p : SegmentPattern) : Plan.ofPattern p.reading = p.plan := by
  have hatoms : ∀ q ∈ Pattern.assertion .textStart :: (p.parts.flatMap SegmentPart.items
      ++ [.assertion .textEnd]), (Plan.ofPattern q).isAtom = true := by
    refine List.forall_mem_cons.mpr ⟨rfl, fun q hq => ?_⟩
    rcases List.mem_append.mp hq with hq | hq
    · exact List.forall_mem_map.mp (isAtom_items p.parts) q hq
    · rw [List.mem_singleton.mp hq]
      rfl
  have hend : ∀ q ∈ [Plan.assertion .textEnd], q.isAtom = true := List.forall_mem_singleton.mpr rfl
  have hparts := foldr_plan_append p.parts hend
  rw [reading, Plan.ofPattern_concats hatoms, List.map_cons, List.foldr_cons, List.map_append,
    List.foldr_append]
  show _ = (Plan.ofRow [.assertion .textStart]).append
    ((p.parts.map SegmentPart.plan).foldr Plan.append (Plan.ofRow [.assertion .textEnd]))
  rw [hparts, Plan.ofRow_append (List.forall_mem_singleton.mpr rfl)
    (Plan.isAtom_foldr_prepend (isAtom_items p.parts) hend)]
  rfl

theorem ofString_expression (p : SegmentPattern) :
    Pattern.ofString p.expression = if p.plan.fits then .ok p.reading else .error .tooLarge := by
  have hlevels : ¬Pattern.maxLevels < p.reading.levels := by
    refine Nat.not_lt.mpr ((Pattern.levels_concats (n := 2) ?_).trans (by decide))
    refine List.forall_mem_cons.mpr ⟨by decide, fun q hq => ?_⟩
    rcases List.mem_append.mp hq with hq | hq
    · obtain ⟨part, -, hq⟩ := List.mem_flatMap.mp hq
      exact part.levels_items q hq
    · rw [List.mem_singleton.mp hq]
      exact Nat.zero_le _
  unfold Pattern.ofString
  dsimp only
  rw [readRow_expression]
  show (if _ then _ else if _ then _ else _) = _
  rw [if_neg hlevels, ofPattern_reading]
  cases p.plan.fits <;> rfl

/-! ## Matching -/

/-- The group of a variable reads any value of a cut. -/
theorem reads_value_iff {before? : Option Char} {s after : List Char} {vs : Values} :
    (Pattern.group true (.repeated (.char (.complement (.single '\n'))) 1 none)).Reads before? s after vs ↔
      s ≠ [] ∧ '\n' ∉ s ∧ vs = [s] := by
  rw [Pattern.reads_capture_iff]
  simp only [Pattern.reads_repeated_char_iff, CharSet.contains_notLineBreak_iff]
  constructor
  · rintro ⟨_, rfl, rfl, hlength, hunbroken⟩
    exact ⟨List.ne_nil_of_length_pos hlength, fun hline => hunbroken _ hline rfl, rfl⟩
  · rintro ⟨hne, hunbroken, rfl⟩
    refine ⟨[], rfl, rfl, List.length_pos_of_ne_nil hne, ?_⟩
    rintro c hc rfl
    exact hunbroken hc

/-- What parts are written as reads up to the end of the text, whatever is before it. -/
theorem reads_parts_iff {parts : List SegmentPart} {before? : Option Char} {s after : List Char}
    {vs : Values} :
    (Pattern.concats (parts.flatMap SegmentPart.items ++ [.assertion .textEnd])).Reads before? s after vs ↔
      Cut parts s vs ∧ after = [] := by
  induction parts generalizing before? s vs with
  | nil =>
    have hend : (Assertion.textEnd.holds ⟨before?, after.head?⟩ = true) ↔ after = [] := by
      cases after <;> simp [Assertion.holds]
    rw [cut_nil_iff, and_assoc, ← hend]
    exact Pattern.reads_assertion_iff
  | cons part parts ih =>
    rw [List.flatMap_cons, List.append_assoc]
    cases part with
    | literal text =>
      rw [Pattern.reads_concats_append_iff, cut_literal_iff]
      constructor
      · rintro ⟨s₁, s₂, vs₁, vs₂, rfl, rfl, htext, hrest⟩
        obtain ⟨rfl, rfl⟩ := Pattern.reads_text_iff.mp htext
        obtain ⟨hcut, hafter⟩ := ih.mp hrest
        exact ⟨⟨s₂, rfl, hcut⟩, hafter⟩
      · rintro ⟨⟨rest, rfl, hcut⟩, hafter⟩
        exact ⟨text.toList, rest, [], vs, rfl, rfl, Pattern.reads_text_iff.mpr ⟨rfl, rfl⟩,
          ih.mpr ⟨hcut, hafter⟩⟩
    | var v =>
      show (Pattern.concats (_ :: _)).Reads _ _ _ _ ↔ _
      rw [Pattern.reads_concats_cons_iff, cut_var_iff]
      constructor
      · rintro ⟨s₁, s₂, vs₁, vs₂, rfl, rfl, hvalue, hrest⟩
        obtain ⟨hne, hunbroken, rfl⟩ := reads_value_iff.mp hvalue
        obtain ⟨hcut, hafter⟩ := ih.mp hrest
        exact ⟨⟨s₁, s₂, vs₂, hne, hunbroken, rfl, rfl, hcut⟩, hafter⟩
      · rintro ⟨⟨value, rest, later, hne, hunbroken, rfl, rfl, hcut⟩, hafter⟩
        exact ⟨value, rest, [value], later, rfl, rfl, reads_value_iff.mpr ⟨hne, hunbroken, rfl⟩,
          ih.mpr ⟨hcut, hafter⟩⟩

/-- The expression of a row matches a segment in the ways in which the row cuts it. -/
theorem finds_iff_cut {p : SegmentPattern} {segment : List Char} {values : Values} :
    p.reading.Finds segment values ↔ Cut p.parts segment values := by
  unfold Pattern.Finds reading
  simp only [Pattern.reads_concats_cons_iff, Pattern.reads_assertion_iff, reads_parts_iff]
  constructor
  · rintro ⟨front, s, after, rfl, s₁, s₂, vs₁, vs₂, rfl, rfl, ⟨rfl, rfl, hstart⟩, hcut, rfl⟩
    obtain rfl : front = [] := List.getLast?_eq_none_iff.mp (Option.isNone_iff_eq_none.mp hstart)
    rwa [List.nil_append, List.nil_append, List.append_nil]
  · intro hcut
    exact ⟨[], segment, [], (List.append_nil _).symm, [], segment, [], values, rfl, rfl, ⟨rfl, rfl, rfl⟩,
      hcut, rfl⟩

/-! ## Capturing -/

/-- The variables with the values of a cut. -/
def assigned (p : SegmentPattern) (values : Values) : List (Variable × String) :=
  p.vars.zip (values.map String.ofList)

def AcceptsAll (p : SegmentPattern) (values : Values) : Prop :=
  ∀ pair ∈ p.assigned values, pair.1.accepts pair.2 = true

/-- The names of the variables with the values of a cut. -/
def captured (p : SegmentPattern) (values : Values) : Captures :=
  (p.assigned values).map fun (v, value) => (v.name, value)

section

variable {p : SegmentPattern}

theorem values?_eq (hlone : ∀ v, p.parts ≠ [.var v]) (segment : String) :
    p.values? segment = (cut? p.parts segment.toList).map p.assigned := by
  unfold values?
  split
  · next v hparts => exact absurd hparts (hlone v)
  · rfl

/-- Capturing appends what the least cut gives, or leaves everything as it was. -/
theorem capture_cases (hlone : ∀ v, p.parts ≠ [.var v]) (segment : String) (captures : Captures) :
    (∃ values, LeastCut p.parts segment.toList values ∧ p.AcceptsAll values ∧
      p.capture segment captures = (true, captures ++ p.captured values)) ∨
    ((∀ values, LeastCut p.parts segment.toList values → ¬p.AcceptsAll values) ∧
      p.capture segment captures = (false, captures)) := by
  rw [capture_eq, capture?, values?_eq hlone]
  cases hcut : cut? p.parts segment.toList with
  | none =>
    right
    refine ⟨fun values h => ?_, rfl⟩
    rw [cut?_eq_some_iff.mpr h] at hcut
    cases hcut
  | some least =>
    have hleast := cut?_eq_some_iff.mp hcut
    have hall : ((p.assigned least).all fun (v, value) => v.accepts value) = true ↔ p.AcceptsAll least :=
      List.all_eq_true
    rw [Option.map_some, Option.bind_some]
    by_cases haccepts : p.AcceptsAll least
    · left
      rw [if_pos (hall.mpr haccepts)]
      exact ⟨least, hleast, haccepts, rfl⟩
    · right
      rw [if_neg (mt hall.mp haccepts)]
      exact ⟨fun values h => h.unique hleast ▸ haccepts, rfl⟩

end

/-- A row of parts that is no lone variable captures what the least cut of a segment gives its variables,
if there is a cut and their rules accept this. The expression of the row is read as a pattern that matches
the segment in just these ways to cut it. -/
theorem capture_least (p : SegmentPattern) (hfits : p.fits = true) (hlone : ∀ v, p.parts ≠ [.var v])
    (segment : String) (captures : Captures) :
    (∃ e, Pattern.ofString p.expression = .ok e ∧
      ∀ values, e.Finds segment.toList values ↔ Cut p.parts segment.toList values) ∧
    (∀ values, Cut p.parts segment.toList values → values.length = p.vars.length) ∧
    ((∃ values, Cut p.parts segment.toList values) → ∃! values, LeastCut p.parts segment.toList values) ∧
    ((p.capture segment captures).1 = true ↔
      ∃ values, LeastCut p.parts segment.toList values ∧ p.AcceptsAll values) ∧
    (∀ values, LeastCut p.parts segment.toList values → p.AcceptsAll values →
      p.capture segment captures = (true, captures ++ p.captured values)) ∧
    ((p.capture segment captures).1 = false → (p.capture segment captures).2 = captures) := by
  have hleast : (∃ values, Cut p.parts segment.toList values) →
      ∃! values, LeastCut p.parts segment.toList values := by
    rintro ⟨values, hcut⟩
    obtain ⟨least, hleast⟩ := hcut.exists_least
    exact ⟨least, hleast, fun other hother => hother.unique hleast⟩
  have hplan : p.plan.fits = true := by
    unfold fits at hfits
    split at hfits
    · next v hparts => exact absurd hparts (hlone v)
    · exact hfits
  have hreads : Pattern.ofString p.expression = .ok p.reading := by
    rw [ofString_expression, if_pos hplan]
  refine ⟨⟨p.reading, hreads, fun values => finds_iff_cut⟩, fun values hcut => hcut.length_eq, hleast, ?_⟩
  rcases capture_cases hlone segment captures with ⟨least, h, haccepts, hcapture⟩ | ⟨hrefuses, hcapture⟩
  · rw [hcapture]
    refine ⟨⟨fun _ => ⟨least, h, haccepts⟩, fun _ => rfl⟩, fun values hvalues _ => ?_, nofun⟩
    rw [hvalues.unique h]
  · rw [hcapture]
    refine ⟨⟨nofun, ?_⟩, fun values h haccepts => absurd haccepts (hrefuses values h), fun _ => rfl⟩
    rintro ⟨values, h, haccepts⟩
    exact absurd haccepts (hrefuses values h)

/-- The pattern of `:name.:ext`. -/
def fileName : SegmentPattern := ⟨[.var ⟨"name", []⟩, .literal ".", .var ⟨"ext", []⟩]⟩

/-- The first point ends the name. -/
theorem capture_least_fileName : fileName.fits = true ∧ (∀ v, fileName.parts ≠ [.var v]) ∧
    LeastCut fileName.parts "a.b.c".toList [['a'], ['b', '.', 'c']] ∧
    fileName.capture "a.b.c" [] = (true, [("name", "a"), ("ext", "b.c")]) := by
  have hfits : fileName.fits = true := by
    show (Plan.row [.assertion .textStart, (SegmentPart.var ⟨"name", []⟩).plan, .text ['.'],
      (SegmentPart.var ⟨"ext", []⟩).plan, .assertion .textEnd]).fits = true
    refine Plan.fits_row (n := 1776) ?_ (by decide)
    simp only [List.forall_mem_cons, List.not_mem_nil, false_imp_iff, implies_true, and_true]
    have hend := (Plan.takes_assertion .textEnd).mono (k := 1776) (by omega)
    exact ⟨(Plan.takes_assertion .textStart).mono (by omega), SegmentPart.takes_plan rfl,
      SegmentPart.takes_plan (p := .literal ".") (by decide +kernel), SegmentPart.takes_plan rfl, hend⟩
  have hlone : ∀ v, fileName.parts ≠ [.var v] := by
    intro v h
    cases (List.cons.inj h).2
  have hleast : LeastCut fileName.parts "a.b.c".toList [['a'], ['b', '.', 'c']] :=
    cut?_eq_some_iff.mp (by decide +kernel)
  have haccepts : fileName.AcceptsAll [['a'], ['b', '.', 'c']] := by
    refine List.all_eq_true.mp ?_
    decide +kernel
  exact ⟨hfits, hlone, hleast,
    (fileName.capture_least hfits hlone "a.b.c" []).2.2.2.2.1 _ hleast haccepts⟩

end SegmentPattern

end UriRouting
