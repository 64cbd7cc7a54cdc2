import UriRouting.Proofs.Template.Optionals
/-!
The text of a host, on its own and in front of more.

A text without slashes that is read as a host in front of `/` is read as the same host in front of every
path: `ReadsHost.ofString`. Two such texts with a period between them are read as their parts with a
delimiter between them: `ReadsHost.join`. Behind an optional part the second text follows without a
period: `ReadsHost.behindOptional`.
-/

namespace UriRouting

open Numeric

/-! ## Slashes -/

def Slashless (tokens : List Token) : Prop := ∀ t ∈ tokens, t.isPunctuation "/" = false

theorem Slashless.cons {t : Token} {tokens : List Token} (ht : t.isPunctuation "/" = false)
    (h : Slashless tokens) : Slashless (t :: tokens) := by
  intro t' ht'
  rcases List.mem_cons.mp ht' with rfl | ht'
  · exact ht
  · exact h t' ht'

theorem isPunctuation_of_kind {t : Token} (h : t.kind ≠ .punctuation) (mark : String) :
    t.isPunctuation mark = false := by
  rw [Token.isPunctuation, Token.is, decide_eq_false h, Bool.false_and]

namespace Scan

theorem flush_slashless {s : Scan} (h : Slashless s.tokens) : Slashless s.flush.tokens := by
  unfold flush
  split
  · exact h
  · exact h.cons (isPunctuation_of_kind (by simp) _)

theorem emit_slashless {s : Scan} (h : Slashless s.tokens) {kind : TokenKind}
    (hkind : kind ≠ .punctuation) (chars : List Char) : Slashless (s.emit kind chars).tokens :=
  (flush_slashless h).cons (isPunctuation_of_kind hkind _)

theorem emitPunctuation_slashless {s : Scan} (h : Slashless s.tokens) {c : Char} (hc : c ≠ '/') :
    Slashless (s.emitPunctuation c).tokens := by
  refine (flush_slashless h).cons ((isPunctuation_single c '/').trans ?_)
  exact decide_eq_false hc

theorem begin_slashless {s : Scan} (h : Slashless s.tokens) {c : Char} (hc : c ≠ '/') :
    Slashless (s.begin c).tokens := by
  unfold begin
  split
  · exact h
  · split
    · exact emitPunctuation_slashless h hc
    · split
      · exact h
      · split
        · exact h
        · split <;> exact h

theorem settle_slashless {s s' : Scan} (h : Slashless s.tokens) (hs : s.settle = .ok s') :
    Slashless s'.tokens := by
  unfold settle at hs
  split at hs
  · cases hs
    exact h
  · cases hs
    exact h
  · split at hs
    · cases hs
    · cases hs
      exact emit_slashless h (by simp) _
  · cases hs
    exact emit_slashless h (by simp) _
  · cases hs
    exact emit_slashless h (by simp) _
  · cases hs
    exact emitPunctuation_slashless (emit_slashless h (by simp) _) (by decide)
  · cases hs
  · cases hs

theorem extend_slashless {s s' : Scan} (h : Slashless s.tokens) {c : Char}
    (hs : s.extend? c = some s') : Slashless s'.tokens := by
  unfold extend? at hs
  split at hs
  · cases hs
  · split at hs <;> cases hs
    exact h
  · split at hs <;> cases hs
    exact h
  · split at hs
    · cases hs
      exact h
    · split at hs <;> cases hs
      exact h
  · split at hs <;> cases hs
    exact h
  · split at hs <;> cases hs
    exact h
  · cases hs
    split
    · exact h
    · split
      · exact emit_slashless h (by simp) _
      · exact h
  · cases hs
    exact h

theorem read_slashless {s s' : Scan} (h : Slashless s.tokens) {c : Char} (hc : c ≠ '/')
    (hs : s.read c = .ok s') : Slashless s'.tokens := by
  unfold Scan.read at hs
  cases hextend : s.extend? c with
  | some s₁ =>
    rw [hextend] at hs
    cases hs
    show Slashless s₁.tokens
    exact extend_slashless h hextend
  | none =>
    rw [hextend] at hs
    cases hsettle : s.settle with
    | error e =>
      rw [hsettle] at hs
      cases hs
    | ok s₁ =>
      rw [hsettle] at hs
      cases hs
      exact begin_slashless (settle_slashless h hsettle) hc

/-- The tokens of a text without slashes are no slashes. -/
theorem slashless_of_run {s s' : Scan} {cs : List Char} (hcs : '/' ∉ cs)
    (hrun : cs.foldlM Scan.read {} = .ok s) (hsettle : s.settle = .ok s') :
    Slashless s'.flush.tokens := by
  have hstart : Slashless (Scan.tokens {}) := fun t ht => (List.not_mem_nil ht).elim
  have htokens : Slashless s.tokens := foldlM_keeps (P := fun s => Slashless s.tokens) hstart
    (fun c hc _ _ h hread => read_slashless h (fun heq => hcs (heq ▸ hc)) hread) hrun
  exact flush_slashless (settle_slashless htokens hsettle)

end Scan

/-! ## Hosts -/

/-- A text is read up to a scan, which settles, and its tokens make these parts of a host. -/
structure HostScan (cs : List Char) (parts : List (Part Slot)) (s s' : Scan) (b : Builder) :
    Prop where
  run : cs.foldlM Scan.read {} = .ok s
  settles : s.settle = .ok s'
  builds : hostBuilder s'.flush.tokens = .ok b
  ready : b.ready? = some ⟨parts.reverse, [], .part⟩

/-- A text without slashes is read as the parts of a host. -/
def ReadsHost (cs : List Char) (parts : List (Part Slot)) : Prop :=
  '/' ∉ cs ∧ ∃ s s' b, HostScan cs parts s s' b

section

variable {cs : List Char} {parts : List (Part Slot)} {s s' : Scan} {b : Builder}

theorem HostScan.sound (h : HostScan cs parts s s' b) : s.Sound ∧ s'.Sound :=
  have hsound := Scan.sound_start.run h.run
  ⟨hsound, (hsound.settle h.settles).1⟩

/-- A host ends outside parentheses. -/
theorem HostScan.depth (h : HostScan cs parts s s' b) (hcs : '/' ∉ cs) : s'.depth = 0 := by
  obtain ⟨hspelled, hdepth, -⟩ := h.sound.2.flush
  have hparse : parseSide .host s'.flush.done .eof = .ok parts := by
    have hbuilds : s'.flush.done.foldlM (Builder.read .host) {} = .ok b := h.builds
    rw [parseSide, hbuilds]
    exact Builder.finish_ok.mpr h.ready
  rw [← hdepth]
  exact (parseSide_texts hspelled
    (fun _ t ht => Scan.slashless_of_run hcs h.run h.settles t (List.mem_reverse.mp ht)) hparse).2

end

theorem ReadsHost.optionalsEnd {cs : List Char} {parts : List (Part Slot)} (h : ReadsHost cs parts) :
    OptionalsEnd parts := by
  obtain ⟨-, s, s', b, hscan⟩ := h
  have hrow := ((hostBuilder_closes hscan.builds).ready hscan.ready).row
  exact fun inner hinner => hrow inner (List.mem_reverse.mpr hinner)

/-! ### In front of a path -/

def slashToken : Token := ⟨.punctuation, "/"⟩

/-- A slash behind a text outside quotes parts its tokens from those of the rest. -/
theorem lex_slash {cs rest : List Char} {s s' : Scan} (hrun : cs.foldlM Scan.read {} = .ok s)
    (hsettle : s.settle = .ok s') {text : String} (htext : text.toList = cs ++ '/' :: rest)
    {tokens : List Token} (hlex : lex text = .ok tokens) :
    ∃ more, tokens = s'.flush.tokens.reverse ++ slashToken :: more := by
  have hslash := Scan.read_mark hsettle (c := '/') rfl fun _ _ => by decide
  unfold lex at hlex
  rw [htext, List.foldlM_append, hrun] at hlex
  obtain ⟨last, hlast, hfinish⟩ := except_bind_ok hlex
  replace hlast : ('/' :: rest).foldlM Scan.read s = .ok last := hlast
  rw [List.foldlM_cons, hslash] at hlast
  obtain ⟨last', -, rfl⟩ := Scan.run_onto_ok rfl hlast
  obtain ⟨more, -, rfl⟩ := (Scan.finish_onto_ok rfl).mp hfinish
  exact ⟨more, by rw [List.reverse_cons, List.append_assoc]; rfl⟩

/-- A text that begins with a slash has tokens that begin with one. -/
theorem lex_slash_first {rest : List Char} {text : String} (htext : text.toList = '/' :: rest)
    {tokens : List Token} (hlex : lex text = .ok tokens) : ∃ more, tokens = slashToken :: more := by
  have hstart : ([] : List Char).foldlM Scan.read {} = .ok {} := rfl
  exact lex_slash hstart rfl htext hlex

theorem takeWhile_slash {base : List Token} (h : Slashless base) (more : List Token) :
    (base.reverse ++ slashToken :: more).takeWhile (!·.isPunctuation "/") = base.reverse := by
  rw [List.takeWhile_append_of_pos fun t ht => by rw [h t (List.mem_reverse.mp ht)]; rfl]
  exact List.append_nil _

/-- What is read as a host in front of a slash. -/
theorem readsHost_of_ofString {text : String} {cs : List Char} (htext : text.toList = cs ++ ['/'])
    (hcs : '/' ∉ cs) {t : Template} (h : Template.ofString text = .ok t) {parts : List (Part Slot)}
    (hhost : t.host? = some parts) : ReadsHost cs parts := by
  obtain ⟨tokens, hlex, hparse⟩ := ofString_ok h
  obtain ⟨s, s', hrun, hsettle⟩ : ∃ s s', cs.foldlM Scan.read {} = .ok s ∧ s.settle = .ok s' := by
    unfold lex at hlex
    rw [htext, List.foldlM_append] at hlex
    obtain ⟨last, hlast, hfinish⟩ := except_bind_ok hlex
    obtain ⟨s, hrun, hread⟩ := except_bind_ok hlast
    obtain ⟨last', hread, hlast⟩ := except_bind_ok hread
    cases hlast
    unfold Scan.finish at hfinish
    cases hsettle : last.settle with
    | error e =>
      rw [hsettle] at hfinish
      cases hfinish
    | ok last' =>
      obtain ⟨s', hs'⟩ := Scan.settles_before (Scan.sound_start.run hrun) (c := '/') rfl hread hsettle
      exact ⟨s, s', hrun, hs'⟩
  obtain ⟨more, rfl⟩ := lex_slash hrun hsettle htext hlex
  have hslashless := Scan.slashless_of_run hcs hrun hsettle
  rcases parse_cases (lex_spelled hlex).kind_ne_eof hparse with
    ⟨hnone, -⟩ | ⟨host, stop, stop', hsome, hparts, -⟩
  · rw [hnone] at hhost
    cases hhost
  · rw [hsome] at hhost
    cases hhost
    rw [takeWhile_slash hslashless more, parseSide] at hparts
    obtain ⟨b, hb, hfinish⟩ := except_bind_ok hparts
    exact ⟨hcs, s, s', b, hrun, hsettle, hb, Builder.finish_ok.mp hfinish⟩

/-- A host is read as such in front of every path. -/
theorem ReadsHost.ofString {cs rest : List Char} {parts : List (Part Slot)} (h : ReadsHost cs parts)
    (hparts : parts ≠ []) {text : String} (htext : text.toList = cs ++ '/' :: rest) {t : Template}
    (hread : Template.ofString text = .ok t) : t.host? = some parts := by
  obtain ⟨hcs, s, s', b, hscan⟩ := h
  obtain ⟨tokens, hlex, hparse⟩ := ofString_ok hread
  obtain ⟨more, rfl⟩ := lex_slash hscan.run hscan.settles htext hlex
  have hfront := takeWhile_slash (Scan.slashless_of_run hcs hscan.run hscan.settles) more
  rcases parse_cases (lex_spelled hlex).kind_ne_eof hparse with
    ⟨-, hbrackets, -⟩ | ⟨host, stop, stop', hsome, hhost, -⟩
  · rw [hfront, List.all_reverse] at hbrackets
    obtain ⟨hrow, hawaiting⟩ := row_of_brackets hbrackets hscan.builds
    have hready := hscan.ready
    rw [Builder.ready?, hawaiting] at hready
    rw [Option.some.inj hready] at hrow
    exact absurd (List.reverse_eq_nil_iff.mp hrow) hparts
  · rw [hfront, parseSide] at hhost
    have hbuilds : s'.flush.tokens.reverse.foldlM (Builder.read .host) {} = .ok b := hscan.builds
    rw [hbuilds] at hhost
    have hfinish : b.finish .host stop = .ok parts := Builder.finish_ok.mpr hscan.ready
    rw [hsome]
    exact congrArg some (Except.ok.inj (hhost.symm.trans hfinish))

/-! ### Side by side -/

theorem Builder.ready?_onto (base : List (Part Slot)) (b : Builder) :
    (b.onto base).ready? = b.ready?.map (Builder.onto base) := by
  unfold ready?
  rw [show (b.onto base).awaiting = b.awaiting from rfl]
  cases b.awaiting with
  | rules name => exact congrArg some (onto_pushSlot b name []).symm
  | _ => rfl

/-- Tokens of a host behind those of another. -/
theorem hostBuilder_behind {base tokens : List Token} {row : List (Part Slot)} {b : Builder}
    (hbase : hostBuilder base = .ok ⟨row, [], .part⟩) (hrow : row.head?.any Part.isVar = false)
    (h : hostBuilder tokens = .ok b) : hostBuilder (tokens ++ base) = .ok (b.onto row) := by
  rw [hostBuilder_append, hbase]
  refine (Builder.run_onto hrow .host tokens.reverse {}).trans ?_
  rw [show tokens.reverse.foldlM (Builder.read .host) {} = .ok b from h]
  rfl

theorem Scan.onto_start (k : Nat) (base : List Token) : Scan.onto k base {} = .behind k base := by
  unfold onto behind
  rw [Nat.zero_add]
  rfl

/-- What a number stands behind in a host, where a part may follow it. -/
theorem outside_of_number {front : List Token} {chars : List Char} {b : Builder}
    (h : hostBuilder (numberToken chars :: front) = .ok b) (hready : b.ready? ≠ none) : Outside front := by
  intro b₀ hb₀
  rw [hostBuilder_cons, hb₀] at h
  replace h : b₀.read .host (numberToken chars) = .ok b := h
  have hparam : ∀ {name rules call params},
      b₀.readParam name rules call params (numberToken chars) ≠ .ok b := by
    intro name rules call params h
    unfold Builder.readParam at h
    split at h <;> cases h
    exact hready rfl
  unfold Builder.read at h
  cases hawaiting : b₀.awaiting with
  | part =>
    rw [Builder.ready?, hawaiting]
    exact Option.some_ne_none _
  | rules name =>
    rw [Builder.ready?, hawaiting]
    exact Option.some_ne_none _
  | firstParam name rules call =>
    rw [hawaiting] at h
    exact absurd h hparam
  | nextParam name rules call params =>
    rw [hawaiting] at h
    exact absurd h hparam
  | _ =>
    rw [hawaiting] at h
    cases h

/-- Behind the period after a host, a scan is alike to one that starts there. -/
theorem HostScan.alike {cs : List Char} {parts : List (Part Slot)} {s s' m : Scan} {b : Builder}
    (h : HostScan cs parts s s' b) (hcs : '/' ∉ cs) (hread : s.read '.' = .ok m) :
    Alike m (Scan.onto m.offset (periodToken :: s'.flush.tokens) {}) := by
  have hdepth := h.depth hcs
  have hsettles := h.settles
  rw [Scan.onto_start]
  by_cases hdigits : ∃ chars, s.lexeme = .digits chars
  · obtain ⟨chars, hlexeme⟩ := hdigits
    have hs' : s' = s.emit .number chars := by
      unfold Scan.settle at hsettles
      rw [hlexeme] at hsettles
      exact (Except.ok.inj hsettles).symm
    have hdepth₀ : s.depth = 0 := by rw [← hdepth, hs', Scan.emit_depth]
    have hflush : s'.flush.tokens = numberToken chars :: s.flush.tokens := by
      rw [hs', Scan.emit_number hdepth₀]
      rfl
    have hm : m = { s with lexeme := .point chars }.advance '.' := Alike.read_digits hlexeme hdepth₀ hread
    have hchars : IsDigits chars := by
      have hsound := h.sound.1.lexeme
      rw [hlexeme] at hsound
      exact hsound
    have hbuilds := h.builds
    rw [hflush] at hbuilds ⊢
    rw [hm]
    exact .point rfl hdepth₀ (Scan.extended_flush s _ _)
      (outside_of_number hbuilds (by rw [h.ready]; exact Option.some_ne_none _))
      (fun hmem => by cases hchars.2 '.' hmem) rfl rfl
  · have hmark := Scan.read_mark hsettles (c := '.') rfl fun chars hc => absurd ⟨chars, hc⟩ hdigits
    rw [hread] at hmark
    have hm : m = .behind m.offset (periodToken :: s'.flush.tokens) := by
      have hafter : s'.depthAfter '.' = 0 := hdepth
      rw [Except.ok.inj hmark, hafter]
      rfl
    rw [hm, ← Scan.onto_start]
    exact .onto {} rfl rfl rfl

/-- A host, a period and a host. -/
theorem ReadsHost.join {cs cs' : List Char} {parts parts' : List (Part Slot)} (h : ReadsHost cs parts)
    (h' : ReadsHost cs' parts') {last : Scan}
    (hrun : (cs ++ '.' :: cs').foldlM Scan.read {} = .ok last) :
    ReadsHost (cs ++ '.' :: cs') (parts ++ .delimiter :: parts') := by
  obtain ⟨hcs, s, s', b, hs⟩ := h
  obtain ⟨hcs', t, t', b', ht⟩ := h'
  have hslashless : '/' ∉ cs ++ '.' :: cs' := by simp [hcs, hcs']
  refine ⟨hslashless, ?_⟩
  -- the second host is read behind the period as on its own
  have hsplit := hrun
  rw [List.foldlM_append, hs.run] at hsplit
  replace hsplit : ('.' :: cs').foldlM Scan.read s = .ok last := hsplit
  rw [List.foldlM_cons] at hsplit
  obtain ⟨m, hm, hsplit⟩ := except_bind_ok hsplit
  have hother : cs'.foldlM Scan.read (Scan.onto m.offset (periodToken :: s'.flush.tokens) {})
      = .ok (t.onto m.offset (periodToken :: s'.flush.tokens)) := by
    rw [Scan.run_onto rfl, ht.run]
    rfl
  have hsettles : (t.onto m.offset (periodToken :: s'.flush.tokens)).settle
      = .ok (t'.onto m.offset (periodToken :: s'.flush.tokens)) := by
    rw [Scan.onto_settle rfl, ht.settles]
    rfl
  have halike := (hs.alike hcs hm).run hsplit hother
  obtain ⟨last', hlast'⟩ := halike.settles_iff.mpr ⟨_, hsettles⟩
  have hsame := halike.settle hlast' hsettles
  -- and so are its tokens
  have hperiod : hostBuilder (periodToken :: s'.flush.tokens)
      = .ok ⟨.delimiter :: parts.reverse, [], .part⟩ := by
    rw [hostBuilder_cons, hs.builds]
    exact Builder.read_period hs.ready
  rw [Scan.onto_flush] at hsame
  refine ⟨last, last', b'.onto (.delimiter :: parts.reverse), hrun, hlast',
    hsame.trans (hostBuilder_behind hperiod rfl ht.builds), ?_⟩
  rw [Builder.ready?_onto, ht.ready, List.reverse_append, List.reverse_cons, List.append_assoc]
  rfl

/-- A host that ends with an optional part, and a host. -/
theorem ReadsHost.behindOptional {cs cs' : List Char} {parts parts' : List (Part Slot)}
    (h : ReadsHost (cs ++ [']']) parts) (h' : ReadsHost cs' parts') :
    (∃ front inner, parts = front ++ [.optional inner]) ∧
      ReadsHost (cs ++ ']' :: cs') (parts ++ parts') := by
  obtain ⟨hcs, s, s', b, hs⟩ := h
  obtain ⟨hcs', t, t', b', ht⟩ := h'
  have hdepth := hs.depth hcs
  -- the scan before the bracket settles, and the bracket is a token of its own
  have hrun := hs.run
  rw [List.foldlM_append] at hrun
  obtain ⟨s₀, hs₀, hread⟩ := except_bind_ok hrun
  obtain ⟨s₁, hread, hs₁⟩ := except_bind_ok hread
  cases hs₁
  obtain ⟨s₀', hsettle₀⟩ := Scan.settles_before (Scan.sound_start.run hs₀) (c := ']') rfl hread hs.settles
  have hmark := Scan.read_mark hsettle₀ (c := ']') rfl fun _ _ => by decide
  rw [hread] at hmark
  obtain ⟨k, base, hbehind⟩ : ∃ k base, s = Scan.onto k (⟨.punctuation, "]"⟩ :: base) {} ∧ s' = s := by
    cases hmark
    have hsettles := (Except.ok.inj hs.settles).symm
    rw [hsettles] at hdepth
    have hafter : s₀'.depthAfter ']' = 0 := hdepth
    refine ⟨s₀'.offset + (']' : Char).utf8Size, s₀'.flush.tokens, ?_, hsettles⟩
    rw [hafter, Scan.onto_start]
    rfl
  obtain ⟨rfl, rfl⟩ := hbehind
  -- so that the builder has just closed an optional part
  have hbuilds : hostBuilder (⟨.punctuation, "]"⟩ :: base) = .ok b := hs.builds
  have hclose := hbuilds
  rw [hostBuilder_cons] at hclose
  obtain ⟨b₀, -, hclose⟩ := except_bind_ok hclose
  obtain ⟨rfl, inner, rest, hrow⟩ := Builder.read_close hclose hs.ready
  refine ⟨⟨rest.reverse, inner, ?_⟩, ?_⟩
  · rw [← List.reverse_reverse parts, hrow, List.reverse_cons]
  · have hrow : parts.reverse.head?.any Part.isVar = false := by
      rw [hrow]
      rfl
    have hsplit : cs ++ ']' :: cs' = (cs ++ [']']) ++ cs' := by rw [List.append_assoc]; rfl
    rw [hsplit]
    refine ⟨fun hmem => (List.mem_append.mp hmem).elim hcs hcs', t.onto k (⟨.punctuation, "]"⟩ :: base),
      t'.onto k (⟨.punctuation, "]"⟩ :: base), b'.onto parts.reverse, ?_, ?_, ?_, ?_⟩
    · rw [List.foldlM_append, hs.run]
      refine (Scan.run_onto rfl cs' {}).trans ?_
      rw [ht.run]
      rfl
    · rw [Scan.onto_settle rfl, ht.settles]
      rfl
    · rw [Scan.onto_flush]
      exact hostBuilder_behind hbuilds hrow ht.builds
    · rw [Builder.ready?_onto, ht.ready, List.reverse_append]
      rfl

end UriRouting
