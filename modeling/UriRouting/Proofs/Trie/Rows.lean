import UriRouting.Proofs.Trie.History
/-!
Rows of keys on their own: what they take, and which of two comes first.

`RowTakes` matches a row with segments one by one, without any trie. `RowBefore` orders rows by a list
of rows, the history: at the first place where two rows differ, a literal comes before a pattern, and
of two patterns the one comes first that was first to occur there in the history.
-/

namespace UriRouting

/-! ## Taking segments -/

/-- What a single key takes, and what it captures. -/
inductive Key.Takes : Key → String → Captures → Prop
  | literal (text : String) : Key.Takes (.literal text) text []
  /-- A lone variable takes a text that is not empty and passes all its rules. -/
  | lone {v : Variable} {value : String} (nonempty : value ≠ "")
    (passes : ∀ check ∈ v.checks, check.2.accepts value = true) :
    Key.Takes (.pattern ⟨[.var v]⟩) value [(v.name, value)]
  /-- Any other pattern takes what it can be captured from. -/
  | mixed {p : SegmentPattern} {segment : String} {captures : Captures}
    (several : ∀ v, p.parts ≠ [.var v]) (captured : p.capture? segment = some captures) :
    Key.Takes (.pattern p) segment captures

/-- What a row of keys takes segment by segment, and what it captures from left to right. -/
inductive RowTakes : List Key → List String → Captures → Prop
  | nil : RowTakes [] [] []
  | cons {k : Key} {row : List Key} {segment : String} {segments : List String}
    {here later : Captures} (head : k.Takes segment here) (tail : RowTakes row segments later) :
    RowTakes (k :: row) (segment :: segments) (here ++ later)

theorem takes_literal_iff {text segment : String} {captures : Captures} :
    Key.Takes (.literal text) segment captures ↔ segment = text ∧ captures = [] := by
  constructor
  · intro h
    cases h
    exact ⟨rfl, rfl⟩
  · intro h
    obtain ⟨rfl, rfl⟩ := h
    exact .literal _

theorem capture?_lone (v : Variable) (value : String) :
    SegmentPattern.capture? ⟨[.var v]⟩ value
      = if v.accepts value then some [(v.name, value)] else none := by
  simp [SegmentPattern.capture?, SegmentPattern.values?]

/-- A pattern takes exactly what `capture?` captures from. -/
theorem takes_pattern_iff {p : SegmentPattern} {segment : String} {captures : Captures} :
    Key.Takes (.pattern p) segment captures ↔ p.capture? segment = some captures := by
  constructor
  · intro h
    rcases h with _ | ⟨nonempty, passes⟩ | ⟨_, captured⟩
    · rw [capture?_lone, if_pos]
      simpa [Variable.accepts, nonempty] using passes
    · exact captured
  · intro h
    by_cases hlone : ∃ v, p.parts = [.var v]
    · obtain ⟨v, hv⟩ := hlone
      obtain ⟨parts⟩ := p
      subst hv
      rw [capture?_lone] at h
      split at h
      · next haccepts =>
        cases h
        simp only [Variable.accepts, Bool.and_eq_true, decide_eq_true_eq, List.all_eq_true] at haccepts
        exact .lone haccepts.1 haccepts.2
      · cases h
    · exact .mixed (fun v hv => hlone ⟨v, hv⟩) h

theorem rowTakes_nil_iff {row : List Key} {captures : Captures} :
    RowTakes row [] captures ↔ row = [] ∧ captures = [] := by
  constructor
  · intro h
    cases h
    exact ⟨rfl, rfl⟩
  · intro h
    obtain ⟨rfl, rfl⟩ := h
    exact .nil

theorem rowTakes_cons_iff {row : List Key} {segment : String} {segments : List String}
    {captures : Captures} :
    RowTakes row (segment :: segments) captures ↔
      ∃ k rest here later, row = k :: rest ∧ captures = here ++ later ∧
        k.Takes segment here ∧ RowTakes rest segments later := by
  constructor
  · intro h
    cases h
    next k rest here later head tail => exact ⟨k, rest, here, later, rfl, rfl, head, tail⟩
  · intro h
    obtain ⟨k, rest, here, later, rfl, rfl, head, tail⟩ := h
    exact .cons head tail

def Key.capture? : Key → String → Option Captures
  | .literal text, segment => if segment = text then some [] else none
  | .pattern p, segment => p.capture? segment

def captureRow? : List Key → List String → Option Captures
  | [], [] => some []
  | k :: row, segment :: segments =>
    (k.capture? segment).bind fun here => (captureRow? row segments).map (here ++ ·)
  | _, _ => none

theorem takes_iff_capture? {k : Key} {segment : String} {captures : Captures} :
    k.Takes segment captures ↔ k.capture? segment = some captures := by
  cases k with
  | literal text =>
    rw [takes_literal_iff, Key.capture?]
    split
    · next h => simp [h, eq_comm]
    · next h => simp [h]
  | pattern p => exact takes_pattern_iff

theorem rowTakes_iff_captureRow? {row : List Key} {segments : List String} {captures : Captures} :
    RowTakes row segments captures ↔ captureRow? row segments = some captures := by
  induction segments generalizing row captures with
  | nil =>
    rw [rowTakes_nil_iff]
    cases row <;> simp [captureRow?, eq_comm]
  | cons segment segments ih =>
    rw [rowTakes_cons_iff]
    cases row with
    | nil => simp [captureRow?]
    | cons k row =>
      rw [captureRow?, Option.bind_eq_some_iff]
      constructor
      · intro h
        obtain ⟨k, row, here, later, ⟨rfl, rfl⟩, rfl, head, tail⟩ := h
        exact ⟨here, takes_iff_capture?.mp head, by rw [ih.mp tail, Option.map_some]⟩
      · intro h
        obtain ⟨here, head, h⟩ := h
        obtain ⟨later, tail, rfl⟩ := Option.map_eq_some_iff.mp h
        exact ⟨k, row, here, later, rfl, rfl, takes_iff_capture?.mpr head, ih.mpr tail⟩

theorem captureRow?_literals (texts segments : List String) :
    captureRow? (texts.map .literal) segments = if segments = texts then some [] else none := by
  induction texts generalizing segments with
  | nil => cases segments <;> rfl
  | cons s texts ih =>
    cases segments with
    | nil => rfl
    | cons segment segments =>
      rw [List.map_cons, captureRow?, ih, Key.capture?]
      by_cases hhead : segment = s
      · by_cases htail : segments = texts <;> simp [hhead, htail]
      · simp [hhead]

theorem RowTakes.captures_eq {row : List Key} {segments : List String} {c c' : Captures}
    (h : RowTakes row segments c) (h' : RowTakes row segments c') : c = c' := by
  rw [rowTakes_iff_captureRow?] at h h'
  rw [h] at h'
  exact Option.some.inj h'

/-- Two rows, one after the other, take what splits into what each of them takes. -/
theorem rowTakes_append {row row' : List Key} {segments : List String} {captures : Captures} :
    RowTakes (row ++ row') segments captures ↔ ∃ front back ahead behind, segments = front ++ back ∧
      RowTakes row front ahead ∧ RowTakes row' back behind ∧ captures = ahead ++ behind := by
  induction row generalizing segments captures with
  | nil =>
    constructor
    · intro h
      exact ⟨[], segments, [], captures, rfl, .nil, h, rfl⟩
    · intro h
      obtain ⟨front, back, ahead, behind, rfl, hnil, h, rfl⟩ := h
      cases hnil
      exact h
  | cons k row ih =>
    constructor
    · intro h
      cases h with
      | @cons _ _ segment _ here _ head tail =>
        obtain ⟨front, back, ahead, behind, rfl, hfront, hback, rfl⟩ := ih.mp tail
        exact ⟨segment :: front, back, here ++ ahead, behind, rfl, .cons head hfront, hback,
          (List.append_assoc here ahead behind).symm⟩
    · intro h
      obtain ⟨front, back, ahead, behind, rfl, hfront, hback, rfl⟩ := h
      cases hfront with
      | cons head tail =>
        rw [List.append_assoc]
        exact .cons head (ih.mpr ⟨_, back, _, behind, rfl, tail, hback, rfl⟩)

/-! ## First occurrences -/

/-- Whether a row begins with the keys of another one. -/
def startsWith : List Key → List Key → Bool
  | _, [] => true
  | [], _ :: _ => false
  | k' :: row, k :: start => k'.same k && startsWith row start

theorem startsWith_cons (row : List Key) (k : Key) (start : List Key) :
    startsWith row (k :: start) = (stripKey k row).any (startsWith · start) := by
  cases row with
  | nil => rfl
  | cons k' row =>
    rw [startsWith, stripKey]
    cases k'.same k <;> rfl

/-- The place of the first row that begins with given keys, which is past the end if none does. -/
def firstStart (rows : List (List Key)) (start : List Key) : Nat :=
  rows.findIdx (startsWith · start)

/-- More rows behind the others leave those that begin with given keys at their places. -/
theorem firstStart_append_of_lt {rows : List (List Key)} {start : List Key}
    (h : firstStart rows start < rows.length) (more : List (List Key)) :
    firstStart (rows ++ more) start = firstStart rows start := by
  unfold firstStart at h ⊢
  rw [List.findIdx_append, if_pos h]

theorem length_le_firstStart_append {rows : List (List Key)} {start : List Key}
    (h : ¬ firstStart rows start < rows.length) (more : List (List Key)) :
    rows.length ≤ firstStart (rows ++ more) start := by
  unfold firstStart at h ⊢
  rw [List.findIdx_append, if_neg h]
  omega

/-- Where a place further in is taken first is decided by the rows that get there. -/
theorem findIdx_lt_of_filterMap {α γ : Type} {g : α → Option γ} {p p' : α → Bool} {q q' : γ → Bool}
    (hp : ∀ a, p a = (g a).any q) (hp' : ∀ a, p' a = (g a).any q') {l : List α}
    (h : (l.filterMap g).findIdx q < (l.filterMap g).findIdx q') : l.findIdx p < l.findIdx p' := by
  induction l with
  | nil => simp at h
  | cons a l ih =>
    rw [List.findIdx_cons, List.findIdx_cons, hp, hp']
    cases hg : g a with
    | none =>
      rw [List.filterMap_cons_none hg] at h
      simpa using ih h
    | some c =>
      rw [List.filterMap_cons_some hg, List.findIdx_cons, List.findIdx_cons] at h
      simp only [Option.any_some]
      cases hq' : q' c with
      | true => simp [hq'] at h
      | false =>
        cases hq : q c with
        | true => simp
        | false =>
          simp only [hq, hq', cond_false, Nat.add_lt_add_iff_right] at h ⊢
          exact ih h

theorem firstStart_cons_lt {rows : List (List Key)} {k : Key} {a b : List Key}
    (h : firstStart (rows.filterMap (stripKey k)) a < firstStart (rows.filterMap (stripKey k)) b) :
    firstStart rows (k :: a) < firstStart rows (k :: b) :=
  findIdx_lt_of_filterMap (fun row => startsWith_cons row k a) (fun row => startsWith_cons row k b) h

/-! ## Order -/

/-- One row comes before another one, given all rows in the order in which they came. -/
inductive RowBefore (rows : List (List Key)) : List Key → List Key → Prop
  | literal (start : List Key) (text : String) (p : SegmentPattern) (a b : List Key) :
    RowBefore rows (start ++ .literal text :: a) (start ++ .pattern p :: b)
  /-- Of two patterns, the one comes before that was first to follow the common keys. -/
  | pattern (start : List Key) (p q : SegmentPattern) (a b : List Key)
    (earlier : firstStart rows (start ++ [.pattern p]) < firstStart rows (start ++ [.pattern q])) :
    RowBefore rows (start ++ .pattern p :: a) (start ++ .pattern q :: b)

theorem RowBefore.cons {rows : List (List Key)} {k : Key} {a b : List Key}
    (h : RowBefore (rows.filterMap (stripKey k)) a b) : RowBefore rows (k :: a) (k :: b) := by
  cases h with
  | literal start text p a b => exact .literal (k :: start) text p a b
  | pattern start p q a b earlier => exact .pattern (k :: start) p q a b (firstStart_cons_lt earlier)

/-- Where two rows differ first is one place, however it is found. -/
theorem start_unique {start start' : List Key} {k k' l l' : Key} {a b c d : List Key} (hk : k ≠ l)
    (hk' : k' ≠ l') (hx : start ++ k :: a = start' ++ k' :: b)
    (hy : start ++ l :: c = start' ++ l' :: d) : start = start' ∧ k = k' ∧ l = l' := by
  induction start generalizing start' with
  | nil =>
    cases start' with
    | nil => exact ⟨rfl, (List.cons.inj hx).1, (List.cons.inj hy).1⟩
    | cons m start' => exact absurd ((List.cons.inj hx).1.trans (List.cons.inj hy).1.symm) hk
  | cons m start ih =>
    cases start' with
    | nil => exact absurd ((List.cons.inj hx).1.symm.trans (List.cons.inj hy).1) hk'
    | cons m' start' =>
      obtain ⟨hm, hx⟩ := List.cons.inj hx
      obtain ⟨hstart, hrest⟩ := ih hx (List.cons.inj hy).2
      exact ⟨by rw [hm, hstart], hrest⟩

theorem RowBefore.asymm {rows : List (List Key)} {a b : List Key} (h : RowBefore rows a b) :
    ¬ RowBefore rows b a := by
  have hne : ∀ {start : List Key} {p q : SegmentPattern},
      firstStart rows (start ++ [.pattern p]) < firstStart rows (start ++ [.pattern q]) →
      Key.pattern p ≠ .pattern q := by
    intro start p q hlt e
    rw [e] at hlt
    exact Nat.lt_irrefl _ hlt
  intro h'
  generalize ha : a = a' at h'
  generalize hb : b = b' at h'
  cases h with
  | literal start text p a b =>
    cases h' with
    | literal start' text' p' a' b' =>
      cases (start_unique (by simp) (by simp) ha hb).2.1
    | pattern start' p' q' a' b' hlt' =>
      cases (start_unique (by simp) (hne hlt').symm ha hb).2.1
  | pattern start p q a b hlt =>
    cases h' with
    | literal start' text' p' a' b' =>
      cases (start_unique (hne hlt) (by simp) ha hb).2.2
    | pattern start' p' q' a' b' hlt' =>
      obtain ⟨rfl, hp, hq⟩ := start_unique (hne hlt) (hne hlt').symm ha hb
      rw [hp, hq] at hlt
      exact Nat.lt_asymm hlt hlt'

theorem RowBefore.irrefl {rows : List (List Key)} (a : List Key) : ¬ RowBefore rows a a :=
  fun h => h.asymm h

end UriRouting
