import UriRouting.Proofs.Template.Texts
/-!
Reading on behind parts.

Parts that have been read do not matter for what follows, unless a variable would stand right behind
a variable: `Builder.onto` puts parts under what a builder has read, and `read_onto` says that the
reader does the same with them and without them. Where a path could end, a slash may follow, and nothing
before it matters: `parseSide_behind`.
-/

namespace UriRouting

namespace Builder

/-- Rows with parts under the outermost one. -/
def ontoOuter (base : List (Part Slot)) : List (List (Part Slot)) → List (List (Part Slot))
  | [] => []
  | [row] => [row ++ base]
  | row :: next :: outer => row :: ontoOuter base (next :: outer)

/-- A builder that has read other parts before. They are given newest first. -/
def onto (base : List (Part Slot)) (b : Builder) : Builder where
  row := if b.outer = [] then b.row ++ base else b.row
  outer := ontoOuter base b.outer
  awaiting := b.awaiting

section

variable {base : List (Part Slot)}

theorem onto_push (b : Builder) (p : Part Slot) : (b.push p).onto base = (b.onto base).push p := by
  unfold onto push
  dsimp only
  split <;> rfl

theorem onto_pushSlot (b : Builder) (name : String) (rules : List RuleCall) :
    (b.pushSlot name rules).onto base = (b.onto base).pushSlot name rules :=
  onto_push b _

theorem onto_openOptional (b : Builder) : b.openOptional.onto base = (b.onto base).openOptional := by
  obtain ⟨row, outer, awaiting⟩ := b
  cases outer <;> rfl

theorem onto_prepend (b : Builder) (parts : List (Part Slot)) :
    onto base { b with row := parts ++ b.row, awaiting := .part }
      = { b.onto base with row := parts ++ (b.onto base).row, awaiting := .part } := by
  unfold onto
  dsimp only
  split
  · rw [List.append_assoc]
  · rfl

/-- Closing an optional part leaves the parts below alone. -/
theorem onto_closed (base row next : List (Part Slot)) (outer : List (List (Part Slot))) :
    ∃ next' outer', ontoOuter base (next :: outer) = next' :: outer' ∧
      onto base ⟨.optional row.reverse :: next, outer, .part⟩
        = ⟨.optional row.reverse :: next', outer', .part⟩ := by
  cases outer with
  | nil => exact ⟨next ++ base, [], rfl, rfl⟩
  | cons _ _ => exact ⟨next, _, rfl, rfl⟩

theorem readPathMark_onto (b : Builder) (t : Token) :
    (b.onto base).readPathMark t = (b.readPathMark t).onto base := by
  unfold readPathMark
  split
  · exact (onto_push b _).symm
  · split
    · rfl
    · split
      · obtain ⟨row, outer, awaiting⟩ := b
        cases outer with
        | nil => exact (onto_push ⟨row, [], awaiting⟩ _).symm
        | cons next outer =>
          obtain ⟨next', outer', houter, hclosed⟩ := onto_closed base row next outer
          rw [onto]
          dsimp only
          rw [houter, hclosed]
          rfl
      · exact (onto_push b _).symm

theorem readHostMark_onto (b : Builder) (t : Token) :
    (b.onto base).readHostMark t = (b.readHostMark t).map (onto base) := by
  unfold readHostMark
  split
  · exact congrArg Except.ok (onto_push b _).symm
  · split
    · exact congrArg Except.ok (onto_openOptional b).symm
    · split
      · obtain ⟨row, outer, awaiting⟩ := b
        cases outer with
        | nil => rfl
        | cons next outer =>
          obtain ⟨next', outer', houter, hclosed⟩ := onto_closed base row next outer
          rw [onto]
          dsimp only
          rw [houter, if_neg (List.cons_ne_nil _ _)]
          dsimp only
          split
          · exact congrArg Except.ok hclosed.symm
          · rfl
      · exact congrArg Except.ok (onto_push b _).symm

/-- A part is read in the same way, unless it would be a variable behind a variable. -/
theorem readPart_onto (hbase : base.head?.any Part.isVar = false) (side : Side) (b : Builder)
    (t : Token) : (b.onto base).readPart side t = (b.readPart side t).map (onto base) := by
  have hvar : (b.onto base).row.head?.any Part.isVar = b.row.head?.any Part.isVar := by
    obtain ⟨row, outer, awaiting⟩ := b
    cases outer with
    | nil =>
      cases row with
      | nil => exact hbase
      | cons p row => rfl
    | cons next outer => rfl
  unfold readPart
  split
  · rw [hvar]
    split <;> rfl
  · exact congrArg Except.ok (readPathMark_onto b t)
  · exact readHostMark_onto b t
  · exact congrArg Except.ok (onto_prepend b _).symm
  · exact congrArg Except.ok (onto_push b _).symm

theorem readParam_onto (b : Builder) (name : String) (rules : List RuleCall) (call : String)
    (params : List Param) (t : Token) :
    (b.onto base).readParam name rules call params t
      = (b.readParam name rules call params t).map (onto base) := by
  unfold readParam
  split <;> rfl

theorem readAfterRule_onto (b : Builder) (name : String) (rules : List RuleCall) (t : Token) :
    (b.onto base).readAfterRule name rules t = (b.readAfterRule name rules t).map (onto base) := by
  unfold readAfterRule
  split
  · rfl
  · split
    · exact congrArg Except.ok (onto_pushSlot b name rules).symm
    · rfl

theorem read_onto (hbase : base.head?.any Part.isVar = false) (side : Side) (b : Builder) (t : Token) :
    (b.onto base).read side t = (b.read side t).map (onto base) := by
  unfold read
  rw [show (b.onto base).awaiting = b.awaiting from rfl]
  split
  · exact readPart_onto hbase side b t
  · split
    · refine congrArg Except.ok ?_
      rw [← onto_openOptional, ← onto_push]
    · rfl
  · next name _ =>
    split
    · rfl
    · rw [← onto_pushSlot]
      exact readPart_onto hbase side _ t
  · split <;> rfl
  · split
    · rfl
    · exact readAfterRule_onto b _ _ t
  · split
    · rfl
    · exact readParam_onto b _ _ _ _ t
  · exact readParam_onto b _ _ _ _ t
  · split
    · rfl
    · split <;> rfl
  · exact readAfterRule_onto b _ _ t

theorem run_onto (hbase : base.head?.any Part.isVar = false) (side : Side) (tokens : List Token)
    (b : Builder) : tokens.foldlM (Builder.read side) (b.onto base)
      = (tokens.foldlM (Builder.read side) b).map (onto base) := by
  induction tokens generalizing b with
  | nil => rfl
  | cons t tokens ih =>
    rw [List.foldlM_cons, List.foldlM_cons, read_onto hbase]
    cases b.read side t with
    | error e => rfl
    | ok b' => exact ih b'

theorem close_onto (side : Side) (b : Builder) (stop : Token) :
    (b.onto base).close side stop = (b.close side stop).map (base.reverse ++ ·) := by
  obtain ⟨row, outer, awaiting⟩ := b
  unfold close onto
  cases outer with
  | nil => exact congrArg Except.ok List.reverse_append
  | cons next outer => cases outer <;> rfl

theorem finish_onto (side : Side) (b : Builder) (stop : Token) :
    (b.onto base).finish side stop = (b.finish side stop).map (base.reverse ++ ·) := by
  unfold finish
  rw [show (b.onto base).awaiting = b.awaiting from rfl]
  split
  · exact close_onto side b stop
  · rfl
  · rw [← onto_pushSlot]
    exact close_onto side _ stop
  all_goals rfl

end

end Builder

/-- What comes behind parts is read as on its own. -/
theorem parseSide_onto {side : Side} {base : List (Part Slot)}
    (hbase : base.head?.any Part.isVar = false) (tokens : List Token) (stop : Token) :
    (do
      let b ← tokens.foldlM (Builder.read side) ⟨base, [], .part⟩
      b.finish side stop) = (parseSide side tokens stop).map (base.reverse ++ ·) := by
  rw [show (⟨base, [], .part⟩ : Builder) = Builder.onto base {} from rfl, Builder.run_onto hbase,
    parseSide]
  cases tokens.foldlM (Builder.read side) {} with
  | error e => rfl
  | ok b => exact Builder.finish_onto side b stop

namespace Builder

theorem close_ok {side : Side} {b : Builder} {stop : Token} {parts : List (Part Slot)}
    (h : b.close side stop = .ok parts) : b.outer = [] ∧ parts = b.row.reverse := by
  unfold close at h
  split at h
  · next houter => exact ⟨houter, (Except.ok.inj h).symm⟩
  · cases h

/-- Where a path can end, a slash puts a delimiter behind it. -/
theorem read_slash {b : Builder} {t stop : Token} {parts : List (Part Slot)}
    (ht : t.isPunctuation "/" = true) (h : b.finish .path stop = .ok parts) :
    b.read .path t = .ok ⟨.delimiter :: parts.reverse, [], .part⟩ := by
  simp only [Token.isPunctuation, Token.is, Option.all_some, Bool.and_eq_true, decide_eq_true_eq] at ht
  obtain ⟨hkind, hvalue⟩ := ht
  have hpart : ∀ {b : Builder}, b.close .path stop = .ok parts →
      b.readPart .path t = .ok ⟨.delimiter :: parts.reverse, [], .part⟩ := by
    intro b hclose
    obtain ⟨houter, rfl⟩ := close_ok hclose
    unfold readPart readPathMark push
    simp only [hkind, hvalue, if_true, houter, List.reverse_reverse]
  unfold finish at h
  unfold read
  split at h
  · next hawaiting =>
    rw [hawaiting]
    exact hpart h
  · cases h
  · next name hawaiting =>
    have hopening : t.isPunctuation "(" = false := by
      rw [Token.isPunctuation, Token.is, hkind, hvalue]
      rfl
    rw [hawaiting, hopening]
    exact hpart h
  all_goals cases h

end Builder

/-- Behind a path and a slash, parts are read as on their own. -/
theorem parseSide_behind {front back : List Token} {t stop stop' : Token} {parts : List (Part Slot)}
    (ht : t.isPunctuation "/" = true) (h : parseSide .path front stop' = .ok parts) :
    parseSide .path (front ++ t :: back) stop
      = (parseSide .path back stop).map (parts ++ .delimiter :: ·) := by
  rw [parseSide] at h
  obtain ⟨b, hrun, hfinish⟩ := except_bind_ok h
  rw [parseSide, List.foldlM_append, hrun]
  show (List.foldlM (Builder.read .path) b (t :: back) >>= fun b => b.finish .path stop) = _
  rw [List.foldlM_cons, Builder.read_slash ht hfinish]
  have hbase : (Part.delimiter :: parts.reverse).head?.any Part.isVar = false := rfl
  refine (parseSide_onto hbase back stop).trans ?_
  rw [List.reverse_cons, List.reverse_reverse]
  simp only [List.append_assoc, List.singleton_append]

theorem parseSide_cons_slash {back : List Token} {t : Token} (stop : Token) (ht : t.isPunctuation "/" = true) :
    parseSide .path (t :: back) stop = (parseSide .path back stop).map (.delimiter :: ·) := by
  have hnil : parseSide .path [] stop = .ok [] := rfl
  exact parseSide_behind ht hnil

/-- A path whose text begins with a slash begins with a delimiter. -/
theorem parseSide_slash {tokens : List Token} {t stop : Token} {parts : List (Part Slot)}
    (ht : t.isPunctuation "/" = true) (h : parseSide .path (t :: tokens) stop = .ok parts) :
    ∃ rest, parts = .delimiter :: rest ∧ parseSide .path tokens stop = .ok rest := by
  rw [parseSide_cons_slash stop ht] at h
  cases hrest : parseSide .path tokens stop with
  | error e =>
    rw [hrest] at h
    cases h
  | ok rest =>
    rw [hrest] at h
    cases h
    exact ⟨rest, rfl, rfl⟩

/-- The path of a template with a host is empty or begins with a delimiter. -/
theorem ofString_path {text : String} {t : Template} (h : Template.ofString text = .ok t)
    (hhost : t.host? ≠ none) : t.path = [] ∨ ∃ rest, t.path = .delimiter :: rest := by
  obtain ⟨tokens, hlex, hparse⟩ := ofString_ok h
  rcases parse_cases (lex_spelled hlex).kind_ne_eof hparse with
    ⟨hnone, -⟩ | ⟨host, stop, stop', hsome, -, hpath⟩
  · exact absurd hnone hhost
  · cases hrest : tokens.dropWhile (!·.isPunctuation "/") with
    | nil =>
      rw [hrest] at hpath
      exact Or.inl (Except.ok.inj hpath).symm
    | cons t rest =>
      have hslash := List.head?_dropWhile_not (p := (!·.isPunctuation "/")) tokens
      rw [hrest] at hslash hpath
      obtain ⟨later, hlater, -⟩ := parseSide_slash (by simpa using hslash) hpath
      exact Or.inr ⟨later, hlater⟩

end UriRouting
