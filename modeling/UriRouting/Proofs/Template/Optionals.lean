import UriRouting.Proofs.Template.Numbers
/-!
Optional parts of hosts.

In a host a closing bracket ends an optional part, which has just ended with a delimiter: `read_close`,
`hostBuilder_closes`. Brackets alone make no part of a host.
-/

namespace UriRouting

namespace Builder

theorem readHostMark_close {b b' : Builder} (h : b.readHostMark ⟨.punctuation, "]"⟩ = .ok b') :
    ∃ row outer, b.outer = row :: outer ∧ b.row.head?.any Part.isDelimiter = true ∧
      b' = ⟨.optional b.row.reverse :: row, outer, .part⟩ := by
  unfold readHostMark at h
  simp only [String.reduceEq, if_false, if_true] at h
  split at h
  · cases h
  · next row outer houter =>
    split at h
    · next hdelimiter =>
      cases h
      exact ⟨row, outer, houter, hdelimiter, rfl⟩
    · cases h

/-- Brackets are read where a part may come. -/
theorem ready_of_close {b b' : Builder} (h : b.read .host ⟨.punctuation, "]"⟩ = .ok b') :
    b.ready? ≠ none := by
  unfold read at h
  cases hawaiting : b.awaiting with
  | part =>
    rw [ready?, hawaiting]
    exact Option.some_ne_none _
  | rules name =>
    rw [ready?, hawaiting]
    exact Option.some_ne_none _
  | _ =>
    rw [hawaiting] at h
    cases h

/-- Closing an optional part of a host. -/
theorem read_close {b b' : Builder} {row : List (Part Slot)}
    (h : b.read .host ⟨.punctuation, "]"⟩ = .ok b') (hready : b'.ready? = some ⟨row, [], .part⟩) :
    b' = ⟨row, [], .part⟩ ∧ ∃ inner rest, row = .optional inner :: rest := by
  obtain ⟨ready, hb⟩ := Option.ne_none_iff_exists'.mp (ready_of_close h)
  rw [read_ready hb rfl] at h
  obtain ⟨row', outer, -, -, rfl⟩ := readHostMark_close h
  cases hready
  exact ⟨rfl, _, _, rfl⟩

end Builder

/-- The optional parts of a row end with delimiters. -/
def OptionalsEnd (parts : List (Part Slot)) : Prop :=
  ∀ inner, .optional inner ∈ parts → inner.getLast? = some .delimiter

theorem OptionalsEnd.append {front back : List (Part Slot)} (hfront : OptionalsEnd front)
    (hback : OptionalsEnd back) : OptionalsEnd (front ++ back) := fun inner h =>
  (List.mem_append.mp h).elim (hfront inner) (hback inner)

theorem optionalsEnd_single {p : Part Slot} (hp : ∀ inner, p ≠ .optional inner) : OptionalsEnd [p] :=
  fun inner h => absurd (List.mem_singleton.mp h).symm (hp inner)

namespace Builder

theorem head?_delimiter {row : List (Part Slot)} (h : row.head?.any Part.isDelimiter = true) :
    row.head? = some .delimiter := by
  cases row with
  | nil => cases h
  | cons p row =>
    cases p with
    | delimiter => rfl
    | _ => cases h

/-- The optional parts in the rows of a builder end with delimiters. -/
structure Closes (b : Builder) : Prop where
  row : OptionalsEnd b.row
  outer : ∀ row ∈ b.outer, OptionalsEnd row

theorem Closes.push {b : Builder} (h : b.Closes) {p : Part Slot} (hp : ∀ inner, p ≠ .optional inner) :
    (b.push p).Closes :=
  ⟨(optionalsEnd_single hp).append h.row, h.outer⟩

theorem Closes.pushSlot {b : Builder} (h : b.Closes) (name : String) (rules : List RuleCall) :
    (b.pushSlot name rules).Closes :=
  h.push fun _ => nofun

theorem Closes.openOptional {b : Builder} (h : b.Closes) : b.openOptional.Closes := by
  refine ⟨fun inner hinner => (List.not_mem_nil hinner).elim, fun row hrow => ?_⟩
  rcases List.mem_cons.mp hrow with rfl | hrow
  · exact h.row
  · exact h.outer row hrow

theorem Closes.ready {b ready : Builder} (h : b.Closes) (hready : b.ready? = some ready) :
    ready.Closes := by
  unfold ready? at hready
  split at hready
  · cases hready
    exact h
  · cases hready
    exact h.pushSlot _ _
  · cases hready

theorem Closes.readHostMark {b b' : Builder} (h : b.Closes) {t : Token}
    (hread : b.readHostMark t = .ok b') : b'.Closes := by
  unfold Builder.readHostMark at hread
  split at hread
  · cases hread
    exact h.push fun _ => nofun
  · split at hread
    · cases hread
      exact h.openOptional
    · split at hread
      · split at hread
        · cases hread
        · next row outer houter =>
          have hrows := h.outer
          rw [houter] at hrows
          split at hread
          · next hdelimiter =>
            cases hread
            have hclosed : OptionalsEnd [.optional b.row.reverse] := by
              intro inner hinner
              cases List.mem_singleton.mp hinner
              rw [List.getLast?_reverse]
              exact head?_delimiter hdelimiter
            exact ⟨hclosed.append (hrows row List.mem_cons_self),
              fun row' hrow' => hrows row' (List.mem_cons_of_mem row hrow')⟩
          · cases hread
      · cases hread
        exact h.push fun _ => nofun

theorem labelParts_optionals (value : String) : OptionalsEnd (labelParts value) := by
  unfold labelParts
  have hdelimiter := optionalsEnd_single (p := .delimiter) fun _ => nofun
  induction Text.splitAt '.' value.toList with
  | nil => exact fun inner hinner => (List.not_mem_nil hinner).elim
  | cons piece rest ih =>
    have hpiece := optionalsEnd_single (p := .text (String.ofList piece)) fun _ => nofun
    cases rest with
    | nil => exact hpiece
    | cons next rest => exact hpiece.append (hdelimiter.append ih)

theorem Closes.readPart {b b' : Builder} (h : b.Closes) {t : Token}
    (hread : b.readPart .host t = .ok b') : b'.Closes := by
  unfold Builder.readPart at hread
  split at hread
  · split at hread <;> cases hread
    exact ⟨h.row, h.outer⟩
  · next hside => cases hside
  · exact h.readHostMark hread
  · cases hread
    refine ⟨OptionalsEnd.append (fun inner hinner => ?_) h.row, h.outer⟩
    exact labelParts_optionals _ inner (List.mem_reverse.mp hinner)
  · cases hread
    exact h.push fun _ => nofun

theorem Closes.readAfterRule {b b' : Builder} (h : b.Closes) {name : String} {rules : List RuleCall}
    {t : Token} (hread : b.readAfterRule name rules t = .ok b') : b'.Closes := by
  unfold Builder.readAfterRule at hread
  split at hread
  · cases hread
    exact ⟨h.row, h.outer⟩
  · split at hread <;> cases hread
    exact h.pushSlot _ _

theorem Closes.readParam {b b' : Builder} (h : b.Closes) {name call : String} {rules : List RuleCall}
    {params : List Param} {t : Token} (hread : b.readParam name rules call params t = .ok b') :
    b'.Closes := by
  unfold Builder.readParam at hread
  split at hread <;> cases hread
  exact ⟨h.row, h.outer⟩

theorem Closes.read {b b' : Builder} (h : b.Closes) {t : Token} (hread : b.read .host t = .ok b') :
    b'.Closes := by
  unfold Builder.read at hread
  split at hread
  · exact h.readPart hread
  · split at hread <;> cases hread
    exact h.openOptional.push (p := .delimiter) fun _ => nofun
  · split at hread
    · cases hread
      exact ⟨h.row, h.outer⟩
    · exact (h.pushSlot _ _).readPart hread
  · split at hread <;> cases hread
    exact ⟨h.row, h.outer⟩
  · split at hread
    · cases hread
      exact ⟨h.row, h.outer⟩
    · exact h.readAfterRule hread
  · split at hread
    · cases hread
      exact ⟨h.row, h.outer⟩
    · exact h.readParam hread
  · exact h.readParam hread
  · split at hread
    · cases hread
      exact ⟨h.row, h.outer⟩
    · split at hread <;> cases hread
      exact ⟨h.row, h.outer⟩
  · exact h.readAfterRule hread

end Builder

theorem hostBuilder_closes {base : List Token} {b : Builder} (h : hostBuilder base = .ok b) :
    b.Closes := by
  have hstart : Builder.Closes {} := ⟨fun inner hinner => (List.not_mem_nil hinner).elim,
    fun row hrow => (List.not_mem_nil hrow).elim⟩
  exact foldlM_keeps hstart (fun _ _ _ _ h hread => h.read hread) h

/-- Brackets alone make no part of a host. -/
theorem row_of_brackets {base : List Token} {b : Builder} (hbase : base.all Token.isBracket = true)
    (h : hostBuilder base = .ok b) : b.row = [] ∧ b.awaiting = .part := by
  induction base generalizing b with
  | nil =>
    cases h
    exact ⟨rfl, rfl⟩
  | cons t base ih =>
    rw [List.all_cons, Bool.and_eq_true] at hbase
    rw [hostBuilder_cons] at h
    obtain ⟨b₀, hb₀, hread⟩ := except_bind_ok h
    obtain ⟨hrow, hawaiting⟩ := ih hbase.2 hb₀
    have ht : t = ⟨.punctuation, "["⟩ ∨ t = ⟨.punctuation, "]"⟩ := by
      obtain ⟨kind, value⟩ := t
      simpa [Token.isBracket, Token.isPunctuation, Token.is, ← and_or_left] using hbase.1
    rcases ht with rfl | rfl
    · have hopen : b = b₀.openOptional := by
        unfold Builder.read at hread
        rw [hawaiting] at hread
        exact (Except.ok.inj hread).symm
      rw [hopen]
      exact ⟨rfl, rfl⟩
    · have hready : b₀.ready? = some b₀ := by rw [Builder.ready?, hawaiting]
      rw [Builder.read_ready hready rfl] at hread
      obtain ⟨row, outer, -, hdelimiter, -⟩ := Builder.readHostMark_close hread
      rw [hrow] at hdelimiter
      cases hdelimiter

end UriRouting
