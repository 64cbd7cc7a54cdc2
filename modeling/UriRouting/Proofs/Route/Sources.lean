import UriRouting.Proofs.Route.Suffixes
import UriRouting.Proofs.Template.Acceptance
import UriRouting.Proofs.Template.Hosts
/-!
Reading a host and a path from their joined text.

The text of a template is its host followed by its path, with nothing to tell where one ends. The reader
takes the first slash for the start of the path, and what is before it for a host if it is more than
brackets. A host that has no slash when it is read on its own, and is more than brackets, is read so in
front of a path, and the path behind it: `reads_of_wholeHost`. Every other host gives its end to the path
or is none: `wholeHost_of_reads`.
-/

namespace UriRouting

open Numeric

/-! ## Slashes of a path -/

mutual

/-- The delimiters of a part, those inside optional parts among them. -/
def Part.delimiters {ν : Type} : Part ν → Nat
  | .delimiter => 1
  | .text _ | .var _ => 0
  | .optional parts => rowDelimiters parts

def rowDelimiters {ν : Type} : List (Part ν) → Nat
  | [] => 0
  | p :: rest => p.delimiters + rowDelimiters rest

end

def slashes (tokens : List Token) : Nat := tokens.countP (·.isPunctuation "/")

theorem slashes_append (front back : List Token) :
    slashes (front ++ back) = slashes front + slashes back := List.countP_append

theorem slashes_cons_of_slash {t : Token} (ht : t.isPunctuation "/" = true) (tokens : List Token) :
    slashes (t :: tokens) = slashes tokens + 1 := List.countP_cons_of_pos ht

theorem slashes_cons_of_not {t : Token} (ht : t.isPunctuation "/" = false) (tokens : List Token) :
    slashes (t :: tokens) = slashes tokens := List.countP_cons_of_neg (by simp [ht])

theorem Slashless.slashes {tokens : List Token} (h : Slashless tokens) : slashes tokens = 0 :=
  List.countP_eq_zero.mpr fun t ht => by simp [h t ht]

theorem Slashless.append {front back : List Token} (h : Slashless front) (h' : Slashless back) :
    Slashless (front ++ back) := fun t ht => (List.mem_append.mp ht).elim (h t) (h' t)

theorem slashless_nil : Slashless [] := fun _ ht => (List.not_mem_nil ht).elim

theorem isPunctuation_slash {t : Token} {mark : String} (ht : t.isPunctuation mark = true)
    (hne : mark ≠ "/") : t.isPunctuation "/" = false := by
  rw [Builder.isPunctuation_eq ht]
  exact decide_eq_false hne

theorem Listed.slashless {γ : Type} {Item : γ → List Token → Prop}
    (hitem : ∀ x item, Item x item → Slashless item) {xs : List γ} {tokens : List Token}
    (h : Listed Item xs tokens) : Slashless tokens := by
  induction h with
  | last spelled closing =>
    exact (hitem _ _ spelled).append (slashless_nil.cons (isPunctuation_slash closing (by decide)))
  | more spelled comma _ ih =>
    exact (hitem _ _ spelled).append (ih.cons (isPunctuation_slash comma (by decide)))

theorem SpellsCall.slashless {call : RuleCall} {tokens : List Token} (h : SpellsCall call tokens) :
    Slashless tokens := by
  cases h with
  | named name spelled =>
    refine Slashless.cons (isPunctuation_of_kind (by simp [name]) "/") ?_
    cases spelled with
    | none => exact slashless_nil
    | some opening spelled =>
      refine Slashless.cons (isPunctuation_slash opening (by decide)) ?_
      cases spelled with
      | none closing => exact slashless_nil.cons (isPunctuation_slash closing (by decide))
      | some listed =>
        refine listed.slashless fun p item hitem => ?_
        obtain ⟨t, rfl, hstands⟩ := hitem
        exact slashless_nil.cons (isPunctuation_of_kind hstands.kind_ne_punctuation "/")

/-- A path has one delimiter for each slash. -/
theorem SpellsRow.slashes {side : Side} {nested behindVar : Bool} {parts : List (Part Slot)}
    {tokens : List Token} (h : SpellsRow side nested behindVar parts tokens) (hside : side = .path) :
    slashes tokens = rowDelimiters parts := by
  induction h with
  | nil => rfl
  | delimiter role rest ih =>
    subst hside
    rw [slashes_cons_of_slash (isPunctuation_of_delimiter role), ih rfl, rowDelimiters, Nat.add_comm]
    rfl
  | @text side nested behindVar t parts tokens role rest ih =>
    subst hside
    have hspec := t.role_spec .path nested
    rw [role] at hspec
    rw [slashes_cons_of_not hspec.2.1, ih rfl, rowDelimiters, Part.delimiters, Nat.zero_add]
  | labels role =>
    subst hside
    cases (kind_of_labels role).2
  | var role bare rest ih =>
    rw [slashes_cons_of_not (isPunctuation_of_kind (by simp [kind_of_var role]) "/"), ih hside,
      rowDelimiters, Part.delimiters, Nat.zero_add]
  | ruled role opening spelled rest ih =>
    have hlisted := (spelled.slashless fun call item (h : SpellsCall call item) => h.slashless).slashes
    rw [slashes_cons_of_not (isPunctuation_of_kind (by simp [kind_of_var role]) "/"),
      slashes_cons_of_not (isPunctuation_slash opening (by decide)), slashes_append, hlisted, ih hside,
      rowDelimiters, Part.delimiters]
  | optionalPath role start spelled closing rest ihinner ih =>
    rw [slashes_cons_of_not (isPunctuation_slash (isPunctuation_of_opening role) (by decide)),
      slashes_cons_of_slash start, slashes_append,
      slashes_cons_of_not (isPunctuation_slash closing (by decide)), ihinner rfl, ih rfl]
    simp only [rowDelimiters, Part.delimiters]
    omega
  | optionalHost => cases hside

/-! ## The seam -/

/-- A slash is read outside the parentheses of rules. -/
theorem Builder.Follows.depth_of_slash {n : Nesting} {side : Side} {b b' : Builder} {t : Token}
    (h : b.Follows n) (ht : t.isPunctuation "/" = true) (hread : b.read side t = .ok b') :
    n.depth = 0 := by
  have hkind := Builder.kind_of_isPunctuation ht
  have hmark : ∀ mark, mark ≠ "/" → t.isPunctuation mark = false := by
    intro mark hne
    rw [Builder.isPunctuation_eq ht]
    exact decide_eq_false (Ne.symm hne)
  have hparam : paramOf? t = none := by rw [paramOf?, hkind]
  unfold Builder.read at hread
  rw [h.depth]
  cases hawaiting : b.awaiting with
  | part => rfl
  | optionalSlash => rfl
  | rules name => rfl
  | _ =>
    simp [hawaiting, Builder.readParam, Builder.readAfterRule, hparam, hkind, hmark] at hread

/-- A host ends outside parentheses. -/
theorem SpellsRow.depth {tokens : List Token} {parts : List (Part Slot)}
    (h : SpellsRow .host false false parts tokens) (hslashless : Slashless tokens)
    (hspelled : Spelled {} tokens) : (nest {} tokens).depth = 0 := by
  have hparse : parseSide .host tokens .eof = .ok parts := parseSide_ok_iff.mpr h
  exact (parseSide_texts hspelled (fun _ => hslashless) hparse).2

/-- What is before a slash of a path ends outside parentheses. -/
theorem SpellsRow.depth_before {front back : List Token} {t : Token} {parts : List (Part Slot)}
    (h : SpellsRow .path false false parts (front ++ t :: back)) (ht : t.isPunctuation "/" = true)
    (hspelled : Spelled {} (front ++ t :: back)) : (nest {} front).depth = 0 := by
  have hparse : parseSide .path (front ++ t :: back) .eof = .ok parts := parseSide_ok_iff.mpr h
  rw [parseSide, List.foldlM_append] at hparse
  obtain ⟨last, hrun, -⟩ := except_bind_ok hparse
  obtain ⟨b, hfront, hrun⟩ := except_bind_ok hrun
  rw [List.foldlM_cons] at hrun
  obtain ⟨b', hread, -⟩ := except_bind_ok hrun
  have hfollows := ((Builder.inOrder_start .path).run Builder.follows_start
    (spelled_append.mp hspelled).1 (fun hhost => absurd hhost (by decide)) hfront).2
  exact hfollows.depth_of_slash ht hread

/-- A host that gives its end to the path ends outside parentheses as well. -/
theorem depth_at_seam {before behind more : List Token} {t : Token} {host path : List (Part Slot)}
    (ht : t.isPunctuation "/" = true) (hbefore : Slashless before)
    (hhost : SpellsRow .host false false host before)
    (hpath : SpellsRow .path false false path (t :: behind ++ slashToken :: more))
    (hspelled : Spelled {} (before ++ (t :: behind ++ slashToken :: more))) :
    (nest {} (before ++ t :: behind)).depth = 0 := by
  obtain ⟨hfront, hback⟩ := spelled_append.mp hspelled
  have hdepth := hhost.depth hbefore hfront
  rw [nest, List.foldl_append, List.foldl_cons]
  show (nest ((nest {} before).step t) behind).depth = 0
  rw [Nesting.step_slash hdepth ht]
  exact hpath.depth_before (t := slashToken) rfl (hback.restart hdepth ht)

theorem lex_ok_iff {text : String} {tokens : List Token} : lex text = .ok tokens ↔
    ∃ s s', text.toList.foldlM Scan.read {} = .ok s ∧ s.settle = .ok s' ∧
      tokens = s'.flush.tokens.reverse := by
  unfold lex
  rw [except_bind_iff]
  refine exists_congr fun s => ?_
  unfold Scan.finish
  cases s.settle with
  | error e => simp [Except.map]
  | ok s' => simp [Except.map, eq_comm]

/-- A text is read behind finished tokens as on its own. -/
theorem lex_behind {front rest : List Char} {k : Nat} {base : List Token}
    (hbase : base.head?.any (·.kind = .var) = false)
    (hfront : front.foldlM Scan.read {} = .ok (Scan.onto k base {})) {text : String}
    (htext : text.toList = front ++ rest) {tokens : List Token} : lex text = .ok tokens ↔
      ∃ more, lex (String.ofList rest) = .ok more ∧ tokens = base.reverse ++ more := by
  unfold lex
  rw [htext, String.toList_ofList, List.foldlM_append, hfront]
  show (rest.foldlM Scan.read (Scan.onto k base {}) >>= Scan.finish) = _ ↔ _
  rw [Scan.run_onto hbase]
  cases rest.foldlM Scan.read {} with
  | error e => simp [Scan.movedOnto, bind, Except.bind]
  | ok last => exact Scan.finish_onto_ok hbase

/-- A slash outside parentheses and quotes ends what was read before. -/
theorem Scan.read_slash {s s' : Scan} (hsettle : s.settle = .ok s') (hdepth : s'.depth = 0) :
    s.read '/' = .ok (onto (s'.offset + ('/' : Char).utf8Size) (slashToken :: s'.flush.tokens) {}) := by
  have hafter : s'.depthAfter '/' = 0 := hdepth
  rw [read_mark hsettle rfl fun _ _ => by decide, hafter, onto_start]
  rfl

/-- Behind a text that ends outside parentheses and quotes, a path is read as on its own. -/
theorem lex_path {cs rest : List Char} {s s' : Scan} (hrun : cs.foldlM Scan.read {} = .ok s)
    (hsettle : s.settle = .ok s') (hdepth : s'.depth = 0) {text path : String}
    (hpath : path.toList = '/' :: rest) (htext : text.toList = cs ++ path.toList) {tokens : List Token}
    (hlex : lex text = .ok tokens) :
    ∃ later, lex path = .ok later ∧ tokens = s'.flush.tokens.reverse ++ later := by
  have hjoined : (cs ++ ['/']).foldlM Scan.read {}
      = .ok (Scan.onto (s'.offset + ('/' : Char).utf8Size) (slashToken :: s'.flush.tokens) {}) := by
    rw [List.foldlM_append, hrun]
    show s.read '/' >>= pure = _
    rw [Scan.read_slash hsettle hdepth]
    rfl
  have halone : ['/'].foldlM Scan.read {}
      = .ok (Scan.onto (('/' : Char).utf8Size) [slashToken] {}) := by rfl
  have hsplit : text.toList = (cs ++ ['/']) ++ rest := by
    rw [htext, hpath, List.append_assoc]
    rfl
  obtain ⟨more, hmore, rfl⟩ := (lex_behind rfl hjoined hsplit).mp hlex
  refine ⟨slashToken :: more, (lex_behind rfl halone hpath).mpr ⟨more, hmore, rfl⟩, ?_⟩
  rw [List.reverse_cons, List.append_assoc]
  rfl

theorem ofString_ok_iff {text : String} {template : Template} : Template.ofString text = .ok template ↔
    ∃ tokens, lex text = .ok tokens ∧ template.SpelledBy tokens := by
  have hspelled : ∀ {tokens}, lex text = .ok tokens →
      (parse (TokenStream.closed tokens) = .ok template ↔ template.SpelledBy tokens) := by
    intro tokens hlex
    rw [parse_ok_iff, takeWhile_closed,
      List.takeWhile_eq_self_iff.mpr fun t ht => decide_eq_true ((lex_spelled hlex).kind_ne_eof t ht)]
  constructor
  · intro h
    obtain ⟨tokens, hlex, hparse⟩ := ofString_ok h
    exact ⟨tokens, hlex, (hspelled hlex).mp hparse⟩
  · intro h
    obtain ⟨tokens, hlex, h⟩ := h
    rw [Template.ofString, hlex]
    dsimp only
    rw [(hspelled hlex).mpr h]
    rfl

/-- The tokens of a host on its own have led as far into parentheses as the scan. -/
theorem depth_of_scan {cs : List Char} {s s' : Scan} (hrun : cs.foldlM Scan.read {} = .ok s)
    (hsettle : s.settle = .ok s') : s'.depth = (nest {} s'.flush.tokens.reverse).depth :=
  ((Scan.sound_start.run hrun).settle hsettle).1.flush.2.1.symm

/-- A path that begins with its slash has no host. -/
theorem spelledBy_of_slash {template : Template} {tokens : List Token}
    (htokens : tokens.head?.any (·.isPunctuation "/") = true) :
    template.SpelledBy tokens ↔
      template.host? = none ∧ SpellsRow .path false false template.path tokens := by
  obtain ⟨t, rest, rfl⟩ : ∃ t rest, tokens = t :: rest := by
    cases tokens with
    | nil => cases htokens
    | cons t rest => exact ⟨t, rest, rfl⟩
  have hslash : t.isPunctuation "/" = true := htokens
  have hcut : CutAtSlash (t :: rest) [] (t :: rest) := ⟨rfl, slashless_nil, hslash⟩
  constructor
  · intro h
    cases h with
    | path cut brackets spelled => exact ⟨rfl, spelled⟩
    | host cut more =>
      rw [cut.eq.1, ← hcut.eq.1] at more
      obtain ⟨t, ht, -⟩ := more
      cases ht
  · intro h
    obtain ⟨host?, path⟩ := template
    obtain ⟨rfl, h⟩ := h
    exact .path hcut (fun _ ht => (List.not_mem_nil ht).elim) h

/-- Whether a text, read on its own, is a host and nothing else: it has no slash, and is more than
brackets. -/
def isWholeHost (host : String) : Bool :=
  match lex host with
  | .ok tokens => tokens.all (!·.isPunctuation "/") && tokens.any (!·.isBracket)
  | .error _ => false

theorem isWholeHost_iff {host : String} : isWholeHost host = true ↔
    ∃ tokens, lex host = .ok tokens ∧ Slashless tokens ∧ ∃ t ∈ tokens, t.isBracket = false := by
  unfold isWholeHost Slashless
  cases lex host with
  | error e => simp
  | ok tokens => simp

section

variable {host path : String} {rest : List Char} {template : Template}

/-- A path on its own has no host. -/
theorem host?_of_path (hpath : path.toList = '/' :: rest) (hread : Template.ofString path = .ok template) :
    template.host? = none := by
  obtain ⟨tokens, hlex, hspelled⟩ := ofString_ok_iff.mp hread
  obtain ⟨more, rfl⟩ := lex_slash_first hpath hlex
  exact ((spelledBy_of_slash rfl).mp hspelled).1

/-- A whole host and a path are read as each on its own. -/
theorem reads_of_wholeHost (hpath : path.toList = '/' :: rest)
    (hread : Template.ofString (host ++ path) = .ok template) (h : isWholeHost host = true) :
    template.host? ≠ none ∧ Template.ofString path = .ok ⟨none, template.path⟩ ∧
      Template.ofString host = .ok ⟨template.host?, []⟩ := by
  obtain ⟨tokens, hlex, hslashless, hmore⟩ := isWholeHost_iff.mp h
  obtain ⟨joined, hjoined, hspelled⟩ := ofString_ok_iff.mp hread
  obtain ⟨s, s', hrun, hsettle, rfl⟩ := lex_ok_iff.mp hlex
  have htext : (host ++ path).toList = host.toList ++ path.toList := String.toList_append
  obtain ⟨more, hslash⟩ := lex_slash hrun hsettle (htext.trans (congrArg _ hpath)) hjoined
  have hcut : CutAtSlash joined s'.flush.tokens.reverse (slashToken :: more) := ⟨hslash, hslashless, rfl⟩
  cases hspelled with
  | path cut brackets =>
    rw [cut.eq.1, ← hcut.eq.1] at brackets
    obtain ⟨t, ht, hmore⟩ := hmore
    exact absurd (hmore.symm.trans (brackets t ht)) Bool.false_ne_true
  | @host _ front back parts row cut _ spelledHost spelledPath =>
    rw [cut.eq.1, ← hcut.eq.1] at spelledHost
    rw [cut.eq.2, ← hcut.eq.2] at spelledPath
    have hdepth : s'.depth = 0 := by
      rw [depth_of_scan hrun hsettle]
      exact spelledHost.depth hslashless (lex_spelled hlex)
    obtain ⟨later, hlater, hjoin⟩ := lex_path hrun hsettle hdepth hpath htext hjoined
    obtain rfl := List.append_cancel_left (hslash.symm.trans hjoin)
    refine ⟨Option.some_ne_none _, ofString_ok_iff.mpr ⟨_, hlater, ?_⟩, ofString_ok_iff.mpr ⟨_, hlex, ?_⟩⟩
    · exact (spelledBy_of_slash rfl).mpr ⟨rfl, spelledPath⟩
    · exact .host ⟨(List.append_nil _).symm, hslashless, rfl⟩ hmore spelledHost .nil

/-- Where a host is read as on its own and leaves nothing to the path, it is a whole host. -/
theorem wholeHost_of_reads (hpath : path.toList = '/' :: rest)
    (hread : Template.ofString (host ++ path) = .ok template) (hbound : template.host? ≠ none)
    {ownPath ownHost : Template} (hownPath : Template.ofString path = .ok ownPath)
    (hsame : ownPath.path = template.path) (hownHost : Template.ofString host = .ok ownHost) :
    isWholeHost host = true := by
  obtain ⟨tokens, hlex, -⟩ := ofString_ok_iff.mp hownHost
  obtain ⟨joined, hjoined, hspelled⟩ := ofString_ok_iff.mp hread
  obtain ⟨s, s', hrun, hsettle, htokens⟩ := lex_ok_iff.mp hlex
  have htext : (host ++ path).toList = host.toList ++ path.toList := String.toList_append
  obtain ⟨more, hslash⟩ := lex_slash hrun hsettle (htext.trans (congrArg _ hpath)) hjoined
  rw [← htokens] at hslash
  cases hspelled with
  | path => exact absurd rfl hbound
  | @host _ front back parts row cut hmore spelledHost spelledPath =>
    obtain ⟨hcut, hplain, hback⟩ := cutAtSlash tokens
    generalize tokens.takeWhile (!·.isPunctuation "/") = before at hcut hplain
    cases hbehind : tokens.dropWhile (!·.isPunctuation "/") with
    | nil =>
      rw [hbehind, List.append_nil] at hcut
      subst hcut
      have hwhole : CutAtSlash joined tokens (slashToken :: more) := ⟨hslash, hplain, rfl⟩
      rw [cut.eq.1, ← hwhole.eq.1] at hmore
      exact isWholeHost_iff.mpr ⟨_, hlex, hplain, hmore⟩
    | cons t behind =>
      -- the host gives its end to the path, which then has more slashes than on its own
      rw [hbehind] at hcut hback
      subst hcut
      have hfirst : t.isPunctuation "/" = true := hback
      have hcut : CutAtSlash joined before (t :: behind ++ slashToken :: more) :=
        ⟨by rw [hslash, List.append_assoc], hplain, hfirst⟩
      rw [cut.eq.1, ← hcut.eq.1] at spelledHost
      rw [cut.eq.2, ← hcut.eq.2] at spelledPath
      have hdepth : s'.depth = 0 := by
        rw [depth_of_scan hrun hsettle, ← htokens]
        exact depth_at_seam hfirst hplain spelledHost spelledPath (hcut.joined ▸ lex_spelled hjoined)
      obtain ⟨later, hlater, hjoin⟩ := lex_path hrun hsettle hdepth hpath htext hjoined
      rw [← htokens] at hjoin
      obtain rfl := List.append_cancel_left (hslash.symm.trans hjoin)
      obtain ⟨tokens, hown, hspelledOwn⟩ := ofString_ok_iff.mp hownPath
      obtain rfl := Except.ok.inj (hlater.symm.trans hown)
      have hcount := (((spelledBy_of_slash rfl).mp hspelledOwn).2.slashes rfl).trans
        ((congrArg rowDelimiters hsame).trans (spelledPath.slashes rfl).symm)
      rw [slashes_append, slashes_cons_of_slash hfirst] at hcount
      omega

end

namespace UriTemplate

/-- A template as it is put together. -/
inductive Composed : UriTemplate → Prop
  | ofPath (path : String) : Composed (.ofPath path)
  | withHost {t : UriTemplate} (h : Composed t) (host : String) : Composed (t.withHost host)
  | withHttpsOnly {t : UriTemplate} (h : Composed t) (httpsOnly : Bool) : Composed { t with httpsOnly }
  | prefixPath {t : UriTemplate} (h : Composed t) (segments : String) : Composed (t.prefixPath segments)
  | appendHost {t : UriTemplate} (h : Composed t) (labels : String) : Composed (t.appendHost labels)

theorem Composed.path_slash {t : UriTemplate} (h : t.Composed) : ∃ rest, t.path.toList = '/' :: rest := by
  induction h with
  | ofPath path => exact ⟨_, String.toList_ofList⟩
  | withHost _ host ih => exact ih
  | withHttpsOnly _ httpsOnly ih => exact ih
  | prefixPath _ segments ih => exact prefixPath_path ih segments
  | appendHost _ labels ih => exact ih

/-- Host and path are read from their joined text as each on its own. -/
structure ReadsApart (t : UriTemplate) (template : Template) : Prop where
  bound : template.host? = none ↔ t.host? = none
  path : ∃ own, Template.ofString t.path = .ok own ∧ own.path = template.path
  host : ∀ host, t.host? = some host →
    ∃ own, Template.ofString host = .ok own ∧ own.host? = template.host?

/-- Host and path are read as each on its own exactly if there is no host, or the host on its own is a
host and nothing else. -/
theorem Composed.joined_iff {t : UriTemplate} (h : t.Composed) {template : Template}
    (hread : Template.ofString t.source = .ok template) :
    t.ReadsApart template ↔ ∀ host, t.host? = some host → isWholeHost host = true := by
  obtain ⟨rest, hpath⟩ := h.path_slash
  unfold source at hread
  cases hhost : t.host? with
  | none =>
    rw [hhost] at hread
    replace hread : Template.ofString ("" ++ t.path) = .ok template := hread
    rw [String.empty_append] at hread
    refine ⟨nofun, fun _ => ⟨⟨fun _ => hhost, fun _ => host?_of_path hpath hread⟩, ⟨_, hread, rfl⟩, ?_⟩⟩
    rw [hhost]
    exact nofun
  | some host =>
    rw [hhost] at hread
    replace hread : Template.ofString (host ++ t.path) = .ok template := hread
    constructor
    · intro hapart host' hhost'
      obtain ⟨ownPath, hownPath, hsame⟩ := hapart.path
      obtain ⟨ownHost, hownHost, -⟩ := hapart.host host hhost
      obtain rfl := Option.some.inj hhost'
      refine wholeHost_of_reads hpath hread ?_ hownPath hsame hownHost
      rw [Ne, hapart.bound, hhost]
      exact Option.some_ne_none host
    · intro hwhole
      obtain ⟨hbound, hownPath, hownHost⟩ := reads_of_wholeHost hpath hread (hwhole host rfl)
      refine ⟨iff_of_false hbound ?_, ⟨_, hownPath, rfl⟩, fun host' hhost' => ?_⟩
      · rw [hhost]
        exact Option.some_ne_none host
      · obtain rfl := Option.some.inj (hhost.symm.trans hhost')
        exact ⟨_, hownHost, rfl⟩

theorem composed_withHost (host path : String) : Composed ((ofPath path).withHost host) :=
  (Composed.ofPath path).withHost host

/-- An optional label of the host and a variable of the path. -/
theorem joined_iff_api : ∃ template,
    Template.ofString ((ofPath "/b/:id").withHost "[api.]a.org").source = .ok template ∧
      ((ofPath "/b/:id").withHost "[api.]a.org").ReadsApart template ∧ template.host? ≠ none := by
  have hhost : ((ofPath "/b/:id").withHost "[api.]a.org").host? = some "[api.]a.org" := by decide
  have hread : Template.ofString ((ofPath "/b/:id").withHost "[api.]a.org").source
      = .ok ⟨some [.optional [.text "api", .delimiter], .text "a", .delimiter, .text "org"],
        [.delimiter, .text "b", .delimiter, .var ⟨"id", []⟩]⟩ := by rfl
  refine ⟨_, hread, ((composed_withHost _ _).joined_iff hread).mpr fun host h => ?_, Option.some_ne_none _⟩
  obtain rfl := Option.some.inj (hhost.symm.trans h)
  decide

/-- A host that is a bracket is read as the beginning of the path. -/
example : Template.ofString ((ofPath "/x").withHost "]").source
    = .ok ⟨none, [.text "]", .delimiter, .text "x"]⟩ := by rfl

/-- The end of a host with a slash is read as the beginning of the path. -/
theorem host_in_path : ¬ ∀ (t : UriTemplate) (template : Template), t.Composed →
    Template.ofString t.source = .ok template → t.ReadsApart template := by
  intro hreads
  have hread : Template.ofString ((ofPath "/x").withHost "a/b").source
      = .ok ⟨some [.text "a"], [.delimiter, .text "b", .delimiter, .text "x"]⟩ := by rfl
  have hpath : Template.ofString "/x" = .ok ⟨none, [.delimiter, .text "x"]⟩ := by rfl
  obtain ⟨own, hown, hsame⟩ := (hreads _ _ (composed_withHost _ _) hread).path
  obtain rfl := Except.ok.inj (hpath.symm.trans hown)
  simp at hsame

end UriTemplate

end UriRouting
