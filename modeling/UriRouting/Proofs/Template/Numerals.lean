import Mathlib.Data.Nat.Factorization.Basic
import UriRouting.Proofs.Numeric.Printing
import UriRouting.Proofs.Numeric.Reading
import UriRouting.Proofs.Template.Slots
/-!
Numbers in templates.

A numeral is what the lexer makes a number token of. Its value is a parameter of a rule, and rules that compare texts
compare with the value as it is printed: `Numeral.text_value` tells of which numerals that is what was written.
-/

namespace UriRouting

open Numeric

/-- Digits, and behind a point more of them or nothing. -/
structure Numeral where
  whole : List Char
  fraction? : Option (List Char)
  wholeDigits : IsDigits whole
  fractionDigits : ∀ cs ∈ fraction?, IsDigits cs

namespace Numeral

def chars (q : Numeral) : List Char :=
  match q.fraction? with
  | none => q.whole
  | some cs => q.whole ++ '.' :: cs

def spelling (q : Numeral) : String := String.ofList q.chars

def token (q : Numeral) : Token := ⟨.number, q.spelling⟩

/-- The number without its point. -/
def coefficient (q : Numeral) : Nat := ofDigits 0 (q.whole ++ q.fraction?.getD [])

/-- The places behind the point. -/
def places (q : Numeral) : Nat := (q.fraction?.getD []).length

/-- A whole number that a signed integer of 64 bits can have. -/
def FitsInteger (q : Numeral) : Prop := q.fraction? = none ∧ q.coefficient < 2 ^ 63

/-- At most fifteen digits, besides zeros behind them, of a number from `10 ^ -307` to `10 ^ 307`. -/
def HasFewDigits (q : Numeral) : Prop :=
  (∃ m k, q.coefficient = m * 10 ^ k ∧ m < 10 ^ 15) ∧
    10 ^ q.places ≤ q.coefficient * 10 ^ 307 ∧ q.coefficient ≤ 10 ^ q.places * 10 ^ 307

end Numeral

/-- The number tokens of a template are numerals. -/
theorem lex_numerals {template : String} {tokens : List Token} (h : lex template = .ok tokens) :
    ∀ t ∈ tokens, t.kind = .number → ∃ q : Numeral, t = q.token := by
  intro t ht hkind
  obtain ⟨n, hspelled⟩ := (lex_spelled h).exists_of_mem ht
  cases hspelled with
  | @digits cs hdigits => exact ⟨⟨cs, none, hdigits, fun _ hcs => nomatch hcs⟩, rfl⟩
  | @fraction whole cs hwhole hdigits =>
    exact ⟨⟨whole, some cs, hwhole, fun _ hcs => Option.some.inj hcs ▸ hdigits⟩, rfl⟩
  | text | punctuation | quotedString | var => cases hkind

namespace Numeral

variable (q : Numeral)

/-! ## Values -/

/-- The value of a numeral, as a floating-point number. -/
def binary64 : Binary64 := .ofDecimal false q.coefficient (-(q.places : Int))

def value : Param :=
  match q.fraction?, q.binary64.toInt? with
  | none, _ => if q.coefficient < 2 ^ 63 then .int q.coefficient else .float q.binary64
  | some _, some i => if i.natAbs < 2 ^ 63 then .int i else .float q.binary64
  | some _, none => .float q.binary64

theorem number?_token : q.token.number? = some q.value := by
  obtain ⟨whole, fraction?, ⟨hwhole_ne, hwhole⟩, hfraction⟩ := q
  have hkind : ¬ (TokenKind.number ≠ .number) := fun h => h rfl
  cases fraction? with
  | none =>
    have hpoint : ¬ whole.contains '.' = true := by
      rw [List.contains_iff_mem]
      exact fun h => by cases hwhole '.' h
    have hcoefficient : ofDigits 0 (whole ++ []) = ofDigits 0 whole := by rw [List.append_nil]
    simp only [Token.number?, token, spelling, chars, String.toList_ofList, value, binary64, coefficient, places,
      Option.getD_none, hcoefficient]
    rw [if_neg hkind, if_neg hpoint, IntegerRange.read?_digits _ hwhole hwhole_ne,
      Binary64.read?_digits hwhole hwhole_ne]
    by_cases hfits : ofDigits 0 whole < 2 ^ 63
    · have hle : ofDigits 0 whole ≤ IntegerRange.signed64.highest := Nat.le_of_lt_succ hfits
      rw [if_pos hfits, if_pos hle]
    · have hgt : ¬ ofDigits 0 whole ≤ IntegerRange.signed64.highest := fun hle => hfits (Nat.lt_succ_of_le hle)
      rw [if_neg hfits, if_neg hgt]
      rfl
  | some cs =>
    obtain ⟨hcs_ne, hcs⟩ := hfraction cs rfl
    have hpoint : (whole ++ '.' :: cs).contains '.' = true := by simp
    simp only [Token.number?, token, spelling, chars, String.toList_ofList, value, binary64, coefficient, places,
      Option.getD_some]
    rw [if_neg hkind, if_pos hpoint, Binary64.read?_fraction hwhole hwhole_ne hcs, Option.map_some]
    cases (Binary64.ofDecimal false (ofDigits 0 (whole ++ cs)) (-(cs.length : Int))).toInt? <;> rfl

/-! ## Printing them -/

theorem noNeedlessZeros_toString (i : Int) : NoNeedlessZeros (toString i).toList := by
  cases i with
  | ofNat n =>
    have htext : toString (Int.ofNat n) = String.ofList (Nat.toDigits 10 n) := rfl
    rw [htext, String.toList_ofList]
    exact noNeedlessZeros_toDigits n
  | negSucc n =>
    have htext : (toString (Int.negSucc n)).toList = '-' :: Nat.toDigits 10 (n + 1) := by
      have htext : toString (Int.negSucc n) = "-" ++ String.ofList (Nat.toDigits 10 (n + 1)) := rfl
      rw [htext, String.toList_append, String.toList_ofList, String.toList_ofList]
      rfl
    rw [htext]
    refine .of_head (by simp) fun hpoint => ?_
    simp [not_mem_toDigits] at hpoint

theorem noNeedlessZeros_value : NoNeedlessZeros q.value.text.toList := by
  have hfloat : NoNeedlessZeros q.binary64.plainText.toList := Binary64.noNeedlessZeros_plainText _
  unfold value
  split
  · split
    · exact noNeedlessZeros_toString _
    · exact hfloat
  · split
    · exact noNeedlessZeros_toString _
    · exact hfloat
  · exact hfloat

variable {q}

theorem HasFewDigits.bounds (h : q.HasFewDigits) :
    (10 : ℚ) ^ (-307 : ℤ) ≤ q.coefficient * 10 ^ (-(q.places : ℤ)) ∧
      (q.coefficient * 10 ^ (-(q.places : ℤ)) : ℚ) ≤ 10 ^ (307 : ℤ) := by
  obtain ⟨-, hlow, hhigh⟩ := h
  have hlow' : (10 : ℚ) ^ q.places ≤ q.coefficient * 10 ^ 307 := by exact_mod_cast hlow
  have hhigh' : (q.coefficient : ℚ) ≤ 10 ^ q.places * 10 ^ 307 := by exact_mod_cast hhigh
  have hpow : (0 : ℚ) < 10 ^ q.places := by positivity
  rw [zpow_neg, zpow_neg, zpow_natCast, zpow_ofNat, ← div_eq_mul_inv]
  constructor
  · rwa [le_div_iff₀ hpow, inv_mul_le_iff₀ (by positivity), mul_comm]
  · rwa [div_le_iff₀ hpow, mul_comm]

theorem HasFewDigits.lowest (h : q.HasFewDigits) :
    ∃ m j, q.coefficient = m * 10 ^ j ∧ ¬ 10 ∣ m ∧ m < 10 ^ 15 := by
  obtain ⟨⟨m, k, hcoefficient, hfew⟩, hlow, -⟩ := h
  have hne : m ≠ 0 := by
    rintro rfl
    rw [hcoefficient, Nat.zero_mul, Nat.zero_mul, Nat.le_zero] at hlow
    exact absurd hlow (Nat.pow_pos (by decide)).ne'
  obtain ⟨i, n, hn, rfl⟩ := Nat.exists_eq_pow_mul_and_not_dvd hne 10 (by decide)
  refine ⟨n, i + k, ?_, hn, Nat.lt_of_le_of_lt (Nat.le_mul_of_pos_left n (Nat.pow_pos (by decide))) hfew⟩
  rw [hcoefficient, Nat.pow_add]
  ring

theorem noZeroInFront_whole (h : NoNeedlessZeros q.chars) : NoZeroInFront q.whole := by
  intro hhead
  obtain ⟨back, hchars⟩ : ∃ back, q.chars = q.whole ++ back := by
    unfold chars
    split
    · exact ⟨[], (List.append_nil _).symm⟩
    · exact ⟨_, rfl⟩
  have hdigits := q.wholeDigits.2
  rw [hchars] at h
  generalize q.whole = whole at *
  cases whole with
  | nil => cases hhead
  | cons c rest =>
    obtain rfl := Option.some.inj hhead
    cases rest with
    | nil => rfl
    | cons d rest =>
      obtain rfl := h.1 d (rest ++ back) rfl
      cases hdigits '.' (by simp)

theorem text_value_whole (hfraction : q.fraction? = none) (hzeros : NoNeedlessZeros q.chars)
    (h : q.FitsInteger ∨ q.HasFewDigits) : q.value.text = q.spelling := by
  obtain ⟨hwhole_ne, hwhole⟩ := q.wholeDigits
  have hchars : q.chars = q.whole := by rw [chars, hfraction]
  have hdigits : Nat.toDigits 10 q.coefficient = q.whole := by
    rw [coefficient, hfraction, Option.getD_none, List.append_nil]
    exact toDigits_ofDigits hwhole hwhole_ne (noZeroInFront_whole hzeros)
  rw [spelling, hchars]
  by_cases hfits : q.coefficient < 2 ^ 63
  · have hvalue : q.value = .int q.coefficient := by
      rw [value, hfraction]
      exact if_pos hfits
    rw [hvalue, ← hdigits]
    rfl
  · have hvalue : q.value = .float q.binary64 := by
      rw [value, hfraction]
      exact if_neg hfits
    have hfew : q.HasFewDigits := h.resolve_left fun hinteger => hfits hinteger.2
    obtain ⟨m, j, hm, hten, hsmall⟩ := hfew.lowest
    have hpos : 0 < m := Nat.pos_of_ne_zero fun hzero => hten (hzero ▸ Nat.dvd_zero 10)
    have hplaces : (j + -(q.places : ℤ)) = j := by
      rw [places, hfraction]
      exact add_zero _
    have htext := (Binary64.plainText_ofDecimal hm hten hsmall hfew.bounds.1 hfew.bounds.2).1
    rw [hplaces, Binary64.positional_natCast, ← toDigits_mul_pow hpos, ← hm, hdigits] at htext
    rw [hvalue]
    exact htext

theorem text_value_fraction {cs : List Char} (hfraction : q.fraction? = some cs) (hzeros : NoNeedlessZeros q.chars)
    (hfew : q.HasFewDigits) : q.value.text = q.spelling := by
  obtain ⟨hwhole_ne, hwhole⟩ := q.wholeDigits
  obtain ⟨hcs_ne, hcs⟩ := q.fractionDigits cs (hfraction ▸ rfl)
  have hchars : q.chars = q.whole ++ '.' :: cs := by rw [chars, hfraction]
  have hcoefficient : q.coefficient = ofDigits 0 (q.whole ++ cs) := by rw [coefficient, hfraction, Option.getD_some]
  have hplaces : q.places = cs.length := by rw [places, hfraction, Option.getD_some]
  -- the last digit is no zero, so the coefficient is in lowest terms
  have hten : ¬ 10 ∣ q.coefficient := by
    have hlast := hzeros.2 (by simp [hchars])
    rw [hchars, ← List.singleton_append, ← List.append_assoc, List.getLast?_append_of_ne_nil _ hcs_ne] at hlast
    rw [hcoefficient, ten_dvd_ofDigits (List.forall_mem_append.mpr ⟨hwhole, hcs⟩) (by simp [hwhole_ne]),
      List.getLast?_append_of_ne_nil _ hcs_ne]
    exact hlast
  obtain ⟨m, j, hm, -, hsmall⟩ := hfew.lowest
  obtain rfl : j = 0 := by
    by_contra hj
    exact hten (hm ▸ Dvd.dvd.mul_left (dvd_pow_self 10 hj) m)
  obtain rfl : q.coefficient = m := by rwa [Nat.pow_zero, Nat.mul_one] at hm
  have hpos : 0 < q.coefficient := Nat.pos_of_ne_zero fun hzero => hten (hzero ▸ Nat.dvd_zero 10)
  obtain ⟨htext, hint⟩ := Binary64.plainText_ofDecimal hm hten hsmall hfew.bounds.1 hfew.bounds.2
  have hplaces_pos : 0 < q.places := hplaces ▸ List.length_pos_iff.mpr hcs_ne
  have hvalue : q.value = .float q.binary64 := by
    rw [value, hfraction, binary64, hint (by omega)]
  rw [hcoefficient] at hpos
  rw [Nat.cast_zero, zero_add, hplaces, hcoefficient, Binary64.positional_fraction hwhole hwhole_ne hcs hcs_ne
    (noZeroInFront_whole hzeros) hpos, ← hchars] at htext
  rw [hvalue, spelling, ← htext, ← hcoefficient, ← hplaces]
  rfl

/-- A numeral without needless zeros is printed as it was written, when it fits an integer or has few digits. -/
theorem text_value (hzeros : NoNeedlessZeros q.chars) (h : q.FitsInteger ∨ q.HasFewDigits) :
    q.value.text = q.spelling := by
  cases hfraction : q.fraction? with
  | none => exact text_value_whole hfraction hzeros h
  | some cs =>
    refine text_value_fraction hfraction hzeros (h.resolve_left fun hinteger => ?_)
    rw [hinteger.1] at hfraction
    cases hfraction

def tenth : Numeral where
  whole := ['0']
  fraction? := some ['1']
  wholeDigits := ⟨List.cons_ne_nil _ _, List.all_eq_true.mp rfl⟩
  fractionDigits := fun _ hcs => Option.some.inj hcs ▸ ⟨List.cons_ne_nil _ _, List.all_eq_true.mp rfl⟩

/-- No binary number is a tenth, and still the nearest one is printed so. -/
example : tenth.value.text = "0.1" :=
  text_value ⟨by simp [tenth, chars], by simp [tenth, chars]⟩
    (.inr ⟨⟨1, 0, rfl, by decide⟩, by decide +kernel, by decide +kernel⟩)

end Numeral

end UriRouting
