import Mathlib.Data.List.Forall2
import UriRouting.Pattern.Basic
/-!
What patterns match.

`Pattern.Reads` says which texts a pattern can read at a place, and what its groups read of them. It says
nothing about which of several ways a search prefers. `Pattern.Finds` is about matches anywhere in a text.
-/

namespace UriRouting

/-! ## Sets -/

namespace CharSet

theorem contains_single_iff {c d : Char} : (single c).contains d = true ↔ d = c := by
  have hd : d.toNat < 0xD800 ∨ 0xDFFF < d.toNat ∧ d.toNat < 0x110000 := d.valid
  rw [← Char.toNat_inj]
  unfold single range contains
  rw [if_neg (Char.lt_irrefl c)]
  split
  · next hlast =>
    simp only [Text.withinBoundaries]
    split <;> simp <;> omega
  · simp only [Text.withinBoundaries, next]
    split
    · simp
      omega
    · split <;> split <;> simp <;> omega

theorem contains_notLineBreak_iff {c : Char} :
    (complement (single '\n')).contains c = true ↔ c ≠ '\n' := by
  have hset : complement (single '\n') = ⟨[0, 10, 11]⟩ := rfl
  have hbreak : '\n'.toNat = 10 := rfl
  rw [hset, ne_eq, ← Char.toNat_inj, hbreak]
  simp only [contains, Text.withinBoundaries]
  split
  · omega
  · split
    · simp
      omega
    · split <;> simp <;> omega

end CharSet

namespace Pattern

/-! ## Reading -/

/-- What a pattern can read between what is before and after it, with what its groups read of that, in the
order in which they open. -/
inductive Reads : Pattern → Option Char → List Char → List Char → List (List Char) → Prop
  | empty {before? : Option Char} {after : List Char} : Reads .empty before? [] after []
  | char {set : CharSet} {c : Char} {before? : Option Char} {after : List Char}
    (mem : set.contains c = true) : Reads (.char set) before? [c] after []
  | assertion {a : Assertion} {before? : Option Char} {after : List Char}
    (holds : a.holds ⟨before?, after.head?⟩ = true) : Reads (.assertion a) before? [] after []
  | concat {p q : Pattern} {before? : Option Char} {s t after : List Char} {us vs : List (List Char)}
    (first : Reads p before? s (t ++ after) us) (second : Reads q (s.getLast?.or before?) t after vs) :
    Reads (.concat p q) before? (s ++ t) after (us ++ vs)
  | left {p q : Pattern} {before? : Option Char} {s after : List Char} {vs : List (List Char)}
    (h : Reads p before? s after vs) : Reads (.either p q) before? s after vs
  | right {p q : Pattern} {before? : Option Char} {s after : List Char} {vs : List (List Char)}
    (h : Reads q before? s after vs) : Reads (.either p q) before? s after vs
  | repeated {p : Pattern} {n least : Nat} {most : Option Nat} {before? : Option Char}
    {s after : List Char} {vs : List (List Char)} (enough : least ≤ n)
    (few : ∀ limit ∈ most, n ≤ limit) (h : Reads (concats (List.replicate n p)) before? s after vs) :
    Reads (.repeated p least most) before? s after vs
  | group {captures : Bool} {p : Pattern} {before? : Option Char} {s after : List Char}
    {vs : List (List Char)} (h : Reads p before? s after vs) :
    Reads (.group captures p) before? s after (if captures then s :: vs else vs)

/-- A match somewhere in a text. -/
def Finds (p : Pattern) (text : List Char) (vs : List (List Char)) : Prop :=
  ∃ front s after, text = front ++ s ++ after ∧ p.Reads front.getLast? s after vs

variable {before? : Option Char} {s after : List Char} {vs : List (List Char)}

theorem reads_char_iff {set : CharSet} :
    (char set).Reads before? s after vs ↔ ∃ c, s = [c] ∧ vs = [] ∧ set.contains c = true := by
  constructor
  · rintro ⟨⟩
    exact ⟨_, rfl, rfl, ‹_›⟩
  · rintro ⟨c, rfl, rfl, h⟩
    exact .char h

theorem reads_assertion_iff {a : Assertion} :
    (assertion a).Reads before? s after vs ↔
      s = [] ∧ vs = [] ∧ a.holds ⟨before?, after.head?⟩ = true := by
  constructor
  · rintro ⟨⟩
    exact ⟨rfl, rfl, ‹_›⟩
  · rintro ⟨rfl, rfl, h⟩
    exact .assertion h

theorem reads_empty_iff : empty.Reads before? s after vs ↔ s = [] ∧ vs = [] := by
  constructor
  · rintro ⟨⟩
    exact ⟨rfl, rfl⟩
  · rintro ⟨rfl, rfl⟩
    exact .empty

theorem reads_concat_iff {p q : Pattern} :
    (concat p q).Reads before? s after vs ↔ ∃ s₁ s₂ vs₁ vs₂, s = s₁ ++ s₂ ∧ vs = vs₁ ++ vs₂ ∧
      p.Reads before? s₁ (s₂ ++ after) vs₁ ∧ q.Reads (s₁.getLast?.or before?) s₂ after vs₂ := by
  constructor
  · rintro ⟨⟩
    exact ⟨_, _, _, _, rfl, rfl, ‹_›, ‹_›⟩
  · rintro ⟨s₁, s₂, vs₁, vs₂, rfl, rfl, h₁, h₂⟩
    exact .concat h₁ h₂

/-- Patterns in a row read one after the other. -/
theorem reads_concats_cons_iff {p : Pattern} {ps : List Pattern} :
    (concats (p :: ps)).Reads before? s after vs ↔ ∃ s₁ s₂ vs₁ vs₂, s = s₁ ++ s₂ ∧ vs = vs₁ ++ vs₂ ∧
      p.Reads before? s₁ (s₂ ++ after) vs₁ ∧ (concats ps).Reads (s₁.getLast?.or before?) s₂ after vs₂ := by
  cases ps with
  | nil =>
    constructor
    · intro h
      exact ⟨s, [], vs, [], (List.append_nil s).symm, (List.append_nil vs).symm, h, .empty⟩
    · rintro ⟨s₁, s₂, vs₁, vs₂, rfl, rfl, h, hempty⟩
      obtain ⟨rfl, rfl⟩ := reads_empty_iff.mp hempty
      rwa [List.append_nil, List.append_nil]
  | cons q ps => exact reads_concat_iff

theorem reads_concats_append_iff {ps qs : List Pattern} :
    (concats (ps ++ qs)).Reads before? s after vs ↔ ∃ s₁ s₂ vs₁ vs₂, s = s₁ ++ s₂ ∧ vs = vs₁ ++ vs₂ ∧
      (concats ps).Reads before? s₁ (s₂ ++ after) vs₁ ∧
      (concats qs).Reads (s₁.getLast?.or before?) s₂ after vs₂ := by
  induction ps generalizing before? s vs with
  | nil =>
    constructor
    · intro h
      exact ⟨[], s, [], vs, rfl, rfl, .empty, h⟩
    · rintro ⟨s₁, s₂, vs₁, vs₂, rfl, rfl, hempty, h⟩
      obtain ⟨rfl, rfl⟩ := reads_empty_iff.mp hempty
      exact h
  | cons p ps ih =>
    rw [List.cons_append, reads_concats_cons_iff]
    constructor
    · rintro ⟨s₁, s', vs₁, vs', rfl, rfl, h, hrest⟩
      obtain ⟨s₂, s₃, vs₂, vs₃, rfl, rfl, h₂, h₃⟩ := ih.mp hrest
      refine ⟨s₁ ++ s₂, s₃, vs₁ ++ vs₂, vs₃, (List.append_assoc ..).symm, (List.append_assoc ..).symm,
        reads_concats_cons_iff.mpr ⟨s₁, s₂, vs₁, vs₂, rfl, rfl, ?_, h₂⟩, ?_⟩
      · rwa [List.append_assoc] at h
      · rwa [List.getLast?_append, Option.or_assoc]
    · rintro ⟨s', s₃, vs', vs₃, rfl, rfl, hfirst, h₃⟩
      obtain ⟨s₁, s₂, vs₁, vs₂, rfl, rfl, h, h₂⟩ := reads_concats_cons_iff.mp hfirst
      refine ⟨s₁, s₂ ++ s₃, vs₁, vs₂ ++ vs₃, List.append_assoc .., List.append_assoc .., ?_,
        ih.mpr ⟨s₂, s₃, vs₂, vs₃, rfl, rfl, h₂, ?_⟩⟩
      · rwa [List.append_assoc]
      · rwa [List.getLast?_append, Option.or_assoc] at h₃

/-- A row of characters reads one of each. -/
theorem reads_chars_iff {sets : List CharSet} :
    (concats (sets.map char)).Reads before? s after vs ↔
      vs = [] ∧ List.Forall₂ (fun set c => set.contains c = true) sets s := by
  induction sets generalizing before? s vs with
  | nil =>
    rw [List.map_nil, List.forall₂_nil_left_iff, and_comm]
    exact reads_empty_iff
  | cons set sets ih =>
    rw [List.map_cons, reads_concats_cons_iff]
    constructor
    · rintro ⟨s₁, s₂, vs₁, vs₂, rfl, rfl, h, hrest⟩
      obtain ⟨c, rfl, rfl, hc⟩ := reads_char_iff.mp h
      obtain ⟨rfl, hsets⟩ := ih.mp hrest
      exact ⟨rfl, .cons hc hsets⟩
    · rintro ⟨rfl, hsets⟩
      cases hsets with
      | cons hc hsets =>
        exact ⟨[_], _, [], [], rfl, rfl, reads_char_iff.mpr ⟨_, rfl, rfl, hc⟩, ih.mpr ⟨rfl, hsets⟩⟩

/-- A row of single characters reads the text that they make. -/
theorem reads_text_iff {cs : List Char} :
    (concats (cs.map fun c => .char (.single c))).Reads before? s after vs ↔ s = cs ∧ vs = [] := by
  have hchars : (cs.map fun c => Pattern.char (.single c)) = (cs.map CharSet.single).map char := by
    rw [List.map_map]
    rfl
  have hsame : List.Forall₂ (fun c d : Char => d = c) cs s ↔ s = cs := by
    constructor
    · intro h
      exact List.forall₂_eq_eq_eq ▸ List.Forall₂.flip h
    · rintro rfl
      exact List.forall₂_same.mpr fun _ _ => rfl
  rw [hchars, reads_chars_iff, List.forall₂_map_left_iff, and_comm]
  simp only [CharSet.contains_single_iff, hsame]

/-- A character that is repeated reads any text of its set that is long enough. -/
theorem reads_repeated_char_iff {set : CharSet} {least : Nat} :
    (repeated (char set) least none).Reads before? s after vs ↔
      vs = [] ∧ least ≤ s.length ∧ ∀ c ∈ s, set.contains c = true := by
  have hchars : List.Forall₂ (fun t c => t.contains c = true) (List.replicate s.length set) s ↔
      ∀ c ∈ s, set.contains c = true := by
    rw [← List.map_const', List.forall₂_map_left_iff, List.forall₂_same]
  constructor
  · rintro ⟨⟩
    next n hleast _ h =>
    rw [← List.map_replicate, reads_chars_iff] at h
    obtain ⟨rfl, h⟩ := h
    obtain rfl : n = s.length := List.length_replicate.symm.trans h.length_eq
    exact ⟨rfl, hleast, hchars.mp h⟩
  · rintro ⟨rfl, hleast, h⟩
    refine .repeated hleast nofun ?_
    rw [← List.map_replicate, reads_chars_iff]
    exact ⟨rfl, hchars.mpr h⟩

theorem reads_capture_iff {p : Pattern} :
    (group true p).Reads before? s after vs ↔ ∃ inner, vs = s :: inner ∧ p.Reads before? s after inner := by
  constructor
  · rintro ⟨⟩
    exact ⟨_, rfl, ‹_›⟩
  · rintro ⟨inner, rfl, h⟩
    exact @Reads.group true _ _ _ _ _ h

end Pattern

end UriRouting
