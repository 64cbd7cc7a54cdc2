import Mathlib.Algebra.Order.Field.Basic
import Mathlib.Algebra.Order.Field.Power
import Mathlib.Algebra.Order.Field.Rat
import Mathlib.Tactic.FieldSimp
import Mathlib.Tactic.Linarith
import Mathlib.Tactic.NormNum
import Mathlib.Tactic.Ring
import UriRouting.Numeric.Binary64.Shortest
/-!
Rounding to the numbers of the format.

Each position has an interval of rationals around its number. A rational that is neither very small nor very large
lies in the interval of the position that it is rounded to, which is narrow: `roundPosition_has`.
-/

namespace UriRouting.Numeric.Binary64

/-! ## Powers -/

theorem pow_toNat_div (b : ℚ) (q : ℤ) : b ^ q.toNat / b ^ (-q).toNat = b ^ q := by
  rcases Int.le_total 0 q with h | h
  · have hneg : (-q).toNat = 0 := by omega
    rw [hneg, pow_zero, div_one, ← zpow_natCast, Int.toNat_of_nonneg h]
  · have hneg : q.toNat = 0 := by omega
    rw [hneg, pow_zero, one_div, ← zpow_natCast, Int.toNat_of_nonneg (by omega), zpow_neg, inv_inv]

/-- A quotient divided by a power of a natural number, whichever side the power is written on. -/
theorem scaled_quotient (num den : ℕ) {b : ℕ} (hb : 0 < b) (q : ℤ) :
    ((num * Nat.pow b (-q).toNat : ℕ) : ℚ) / (den * Nat.pow b q.toNat : ℕ) = num / den / (b : ℚ) ^ q := by
  have hb' : (b : ℚ) ≠ 0 := by positivity
  rw [← pow_toNat_div (b : ℚ) q]
  push_cast [Nat.pow_eq]
  field_simp

/-! ## Intervals -/

namespace Interval

def lowEnd (i : Interval) : ℚ := i.low / i.denominator

def number (i : Interval) : ℚ := i.value / i.denominator

def highEnd (i : Interval) : ℚ := i.high / i.denominator

def Has (i : Interval) (x : ℚ) : Prop :=
  if i.closed = true then i.lowEnd ≤ x ∧ x ≤ i.highEnd else i.lowEnd < x ∧ x < i.highEnd

variable {i : Interval} {x y : ℚ}

theorem Has.bounds (h : i.Has x) : i.lowEnd ≤ x ∧ x ≤ i.highEnd := by
  rw [Has] at h
  split at h
  · exact h
  · exact ⟨h.1.le, h.2.le⟩

theorem has_of_lt (hlow : i.lowEnd < x) (hhigh : x < i.highEnd) : i.Has x := by
  rw [Has]
  split
  · exact ⟨hlow.le, hhigh.le⟩
  · exact ⟨hlow, hhigh⟩

theorem Has.abs_sub_le (hx : i.Has x) (hy : i.Has y) : |x - y| ≤ i.highEnd - i.lowEnd := by
  obtain ⟨hlowx, hhighx⟩ := hx.bounds
  obtain ⟨hlowy, hhighy⟩ := hy.bounds
  rw [abs_le]
  constructor <;> linarith

end Interval

/-- How far the interval of a number reaches down, in quarters of its last place. -/
def gapBelow (m : ℕ) (q : ℤ) : ℕ := if m = binade && -1074 < q then 1 else 2

theorem gapBelow_pos_le (m : ℕ) (q : ℤ) : 1 ≤ gapBelow m q ∧ gapBelow m q ≤ 2 := by
  rw [gapBelow]
  split <;> decide

section

variable {position m : ℕ} {q : ℤ}

theorem ofPosition_denominator_pos (position : ℕ) : 0 < (Interval.ofPosition position).denominator :=
  Nat.pow_pos Nat.two_pos

/-- The interval of a position, in quarters of the last place of its number. -/
theorem ofPosition_ends (h : decode position = (m, q)) (hm : 0 < m) :
    (Interval.ofPosition position).lowEnd = (4 * m - gapBelow m q) * 2 ^ (q - 2) ∧
    (Interval.ofPosition position).number = 4 * m * 2 ^ (q - 2) ∧
    (Interval.ofPosition position).highEnd = (4 * m + 2) * 2 ^ (q - 2) := by
  have hscaled : ∀ n : ℕ, ((n * Nat.pow 2 (q - 2).toNat : ℕ) : ℚ) / (Nat.pow 2 (2 - q).toNat : ℕ)
      = n * 2 ^ (q - 2) := by
    intro n
    rw [← pow_toNat_div 2 (q - 2), Int.neg_sub, ← mul_div_assoc]
    push_cast [Nat.pow_eq]
    rfl
  have hgap := gapBelow_pos_le m q
  simp only [Interval.lowEnd, Interval.number, Interval.highEnd, Interval.ofPosition, h]
  refine ⟨?_, ?_, ?_⟩
  · rw [hscaled, ← gapBelow, Nat.cast_sub (by omega)]
    push_cast
    ring
  · rw [hscaled]
    push_cast
    ring
  · rw [hscaled]
    push_cast
    ring

theorem has_ofPosition (h : decode position = (m, q)) (hm : 0 < m) {y : ℚ}
    (hbounds : 4 * m - gapBelow m q ≤ y ∧ y ≤ 4 * m + 2)
    (hodd : m % 2 = 1 → 4 * m - gapBelow m q < y ∧ y < 4 * m + 2) :
    (Interval.ofPosition position).Has (y * 2 ^ (q - 2)) := by
  obtain ⟨hlow, -, hhigh⟩ := ofPosition_ends h hm
  have hpow : (0 : ℚ) < 2 ^ (q - 2) := by positivity
  have hclosed : (Interval.ofPosition position).closed = decide (m % 2 = 0) := by simp only [Interval.ofPosition, h]
  rw [Interval.Has, hlow, hhigh, hclosed]
  split
  · exact ⟨mul_le_mul_of_nonneg_right hbounds.1 hpow.le, mul_le_mul_of_nonneg_right hbounds.2 hpow.le⟩
  · next hclosed =>
    have hodd := hodd (by simpa using hclosed)
    exact ⟨mul_lt_mul_of_pos_right hodd.1 hpow, mul_lt_mul_of_pos_right hodd.2 hpow⟩

end

/-! ## Rounding to an integer -/

/-- An integer is nearest to a number, and even where another one is as near. -/
def RoundsTo (y : ℚ) (r : ℕ) : Prop :=
  (2 * r - 1 ≤ 2 * y ∧ 2 * y ≤ 2 * r + 1) ∧ (r % 2 = 1 → 2 * r - 1 < 2 * y ∧ 2 * y < 2 * r + 1)

theorem roundsTo_roundQuotient (num : ℕ) {den : ℕ} (hden : 0 < den) :
    RoundsTo ((num : ℚ) / den) (roundQuotient num den) := by
  have hden' : (0 : ℚ) < den := by exact_mod_cast hden
  have hsplit : (den : ℚ) * ↑(num / den) + ↑(num % den) = num := by exact_mod_cast Nat.div_add_mod num den
  have hrest : (↑(num % den) : ℚ) < den := by exact_mod_cast Nat.mod_lt num hden
  have hpos : (0 : ℚ) ≤ ↑(num % den) := Nat.cast_nonneg _
  rw [RoundsTo, ← mul_div_assoc, le_div_iff₀ hden', div_le_iff₀ hden', lt_div_iff₀ hden', div_lt_iff₀ hden']
  simp only [roundQuotient]
  split
  · next hlow =>
    have hlow : 2 * (↑(num % den) : ℚ) < den := by exact_mod_cast hlow
    exact ⟨⟨by linarith, by linarith⟩, fun _ => ⟨by linarith, by linarith⟩⟩
  · split
    · next hhigh =>
      have hhigh : (den : ℚ) < 2 * ↑(num % den) := by exact_mod_cast hhigh
      push_cast
      exact ⟨⟨by linarith, by linarith⟩, fun _ => ⟨by linarith, by linarith⟩⟩
    · next hlow hhigh =>
      -- halfway between two integers the even one is taken
      have hhalf : 2 * (↑(num % den) : ℚ) = den := by
        have heq : 2 * (num % den) = den := by omega
        exact_mod_cast heq
      refine ⟨?_, fun hodd => by omega⟩
      rcases Nat.mod_two_eq_zero_or_one (num / den) with heven | hodd
      · rw [heven, Nat.add_zero]
        exact ⟨by linarith, by linarith⟩
      · rw [hodd]
        push_cast
        exact ⟨by linarith, by linarith⟩

theorem RoundsTo.between {y : ℚ} {r low high : ℕ} (h : RoundsTo y r) (hlow : (low : ℚ) ≤ y) (hhigh : y < high) :
    low ≤ r ∧ r ≤ high := by
  obtain ⟨⟨hbelow, habove⟩, -⟩ := h
  have hlow' : (2 * low : ℚ) ≤ 2 * r + 1 := by linarith
  have hhigh' : (2 * r : ℚ) < 2 * high + 1 := by linarith
  norm_cast at hlow' hhigh'
  omega

/-! ## Rounding to a position -/

theorem leadingExponent_spec {num den : ℕ} (hnum : 0 < num) (hden : 0 < den) :
    (2 : ℚ) ^ leadingExponent num den ≤ num / den ∧ (num / den : ℚ) < 2 ^ (leadingExponent num den + 1) := by
  have hnum' : (2 : ℚ) ^ num.log2 ≤ num ∧ (num : ℚ) < 2 ^ (num.log2 + 1) :=
    ⟨by exact_mod_cast Nat.log2_self_le hnum.ne', by exact_mod_cast Nat.lt_log2_self⟩
  have hden' : (2 : ℚ) ^ den.log2 ≤ den ∧ (den : ℚ) < 2 ^ (den.log2 + 1) :=
    ⟨by exact_mod_cast Nat.log2_self_le hden.ne', by exact_mod_cast Nat.lt_log2_self⟩
  have hpos : (0 : ℚ) < den := by exact_mod_cast hden
  have hpow : ∀ a b : ℕ, (2 : ℚ) ^ ((a : ℤ) - b) = 2 ^ a / 2 ^ b := by
    intro a b
    rw [zpow_sub₀ two_ne_zero, zpow_natCast, zpow_natCast]
  rw [leadingExponent]
  set k : ℤ := (num.log2 : ℤ) - den.log2 with hk
  have hbelow : (2 : ℚ) ^ (k - 1) ≤ num / den := by
    have hexponent : k - 1 = (num.log2 : ℤ) - (den.log2 + 1 : ℕ) := by omega
    rw [hexponent, hpow]
    exact div_le_div₀ (by positivity) hnum'.1 hpos hden'.2.le
  have habove : (num / den : ℚ) < 2 ^ (k + 1) := by
    have hexponent : k + 1 = (num.log2 + 1 : ℕ) - (den.log2 : ℤ) := by omega
    rw [hexponent, hpow]
    exact div_lt_div₀ hnum'.2 hden'.1 (by positivity) (by positivity)
  have hcompare : num * Nat.pow 2 (-k).toNat < den * Nat.pow 2 k.toNat ↔ (num / den : ℚ) < 2 ^ k := by
    have hscaled : (0 : ℚ) < (den * Nat.pow 2 k.toNat : ℕ) := by
      exact_mod_cast Nat.mul_pos hden (Nat.pow_pos Nat.two_pos)
    rw [← Nat.cast_lt (α := ℚ), ← div_lt_one hscaled, scaled_quotient num den Nat.two_pos, div_lt_one (by positivity)]
    rfl
  split
  · next hlt =>
    rw [sub_add_cancel]
    exact ⟨hbelow, hcompare.mp hlt⟩
  · next hge => exact ⟨not_lt.mp (mt hcompare.mpr hge), habove⟩

theorem decode_normal (e : ℕ) {m : ℕ} (hlow : binade ≤ m) (hhigh : m < 2 * binade) :
    decode (e * binade + m) = (m, (e : ℤ) - 1074) := by
  have hdiv : (e * binade + m) / binade = e + 1 := by
    simp only [binade] at *
    omega
  have hmod : binade + (e * binade + m) % binade = m := by
    simp only [binade] at *
    omega
  have hexponent : ((e + 1 : ℕ) : ℤ) - 1075 = (e : ℤ) - 1074 := by omega
  simp only [decode, hdiv, hmod, hexponent, Nat.add_one_ne_zero, if_false]

/-- What the quotient of two numbers is rounded to, where numbers have all their places. -/
theorem roundPosition_eq {num den : ℕ} (hnum : 0 < num) (hden : 0 < den) (hlow : (2 : ℚ) ^ (-1022 : ℤ) ≤ num / den)
    (hhigh : (num / den : ℚ) < 2 ^ (1023 : ℤ)) :
    ∃ (e s : ℕ) (y : ℚ), roundPosition num den = e * binade + s ∧ e ≤ 2044 ∧ binade ≤ s ∧ s ≤ 2 * binade ∧
      (num / den : ℚ) = y * 2 ^ ((e : ℤ) - 1074) ∧ (binade : ℚ) ≤ y ∧ y < 2 * binade ∧ RoundsTo y s := by
  obtain ⟨hleading, hnext⟩ := leadingExponent_spec hnum hden
  set k := leadingExponent num den with hk
  have hk_low : -1022 < k + 1 := (zpow_lt_zpow_iff_right₀ one_lt_two).mp (hlow.trans_lt hnext)
  have hk_high : k < 1023 := (zpow_lt_zpow_iff_right₀ one_lt_two).mp (hleading.trans_lt hhigh)
  have hq : max (k - 52) (-1074) = k - 52 := by omega
  have he : (((k + 1022).toNat : ℕ) : ℤ) - 1074 = k - 52 := by omega
  have hpow : (0 : ℚ) < 2 ^ (k - 52) := by positivity
  have hbinade : (binade : ℚ) * 2 ^ (k - 52) = 2 ^ k := by
    have hcast : (binade : ℚ) = 2 ^ (52 : ℤ) := by norm_num [binade]
    rw [hcast, ← zpow_add₀ two_ne_zero, add_sub_cancel]
  have hlow : (binade : ℚ) ≤ num / den / 2 ^ (k - 52) := by
    rwa [le_div_iff₀ hpow, hbinade]
  have hhigh : (num / den / 2 ^ (k - 52) : ℚ) < 2 * binade := by
    rwa [div_lt_iff₀ hpow, mul_assoc, hbinade, mul_comm, ← zpow_add_one₀ two_ne_zero]
  have hround : RoundsTo (num / den / 2 ^ (k - 52))
      (roundQuotient (num * Nat.pow 2 (-(k - 52)).toNat) (den * Nat.pow 2 (k - 52).toNat)) := by
    have hscaled := scaled_quotient num den Nat.two_pos (k - 52)
    rw [Nat.cast_ofNat] at hscaled
    rw [← hscaled]
    exact roundsTo_roundQuotient _ (Nat.mul_pos hden (Nat.pow_pos Nat.two_pos))
  obtain ⟨hs_low, hs_high⟩ := hround.between hlow (by exact_mod_cast hhigh)
  refine ⟨(k + 1022).toNat, _, num / den / 2 ^ (k - 52), ?_, by omega, hs_low, hs_high, ?_, hlow, hhigh, hround⟩
  · have hexponent : (k - 52 + 1074).toNat = (k + 1022).toNat := by omega
    rw [roundPosition, ← hk, hq, hexponent]
    simp only [binade, infinityPosition] at *
    omega
  · rw [he, div_mul_cancel₀ _ hpow.ne']

/-- What is rounded to a significand lies in the interval of its position. -/
theorem has_of_roundsTo (e : ℕ) {s : ℕ} {y : ℚ} (hlow : binade ≤ s) (hhigh : s < 2 * binade) (hy : (binade : ℚ) ≤ y)
    (hround : RoundsTo y s) : (Interval.ofPosition (e * binade + s)).Has (y * 2 ^ ((e : ℤ) - 1074)) := by
  obtain ⟨hnear, hodd⟩ := hround
  have hbinade : 0 < binade := by decide
  have hquarters : y * 2 ^ ((e : ℤ) - 1074) = 4 * y * 2 ^ ((e : ℤ) - 1074 - 2) := by
    rw [zpow_sub₀ two_ne_zero _ 2]
    ring
  have hbelow : (4 * s - gapBelow s (e - 1074) : ℚ) ≤ 4 * y ∧
      (s % 2 = 1 → (4 * s - gapBelow s (e - 1074) : ℚ) < 4 * y) := by
    by_cases hfirst : s = binade
    · have hgap : (1 : ℚ) ≤ gapBelow s (e - 1074) := by exact_mod_cast (gapBelow_pos_le s (e - 1074)).1
      have hy : (s : ℚ) ≤ y := by rwa [hfirst]
      exact ⟨by linarith, fun _ => by linarith⟩
    · have hgap : (gapBelow s (e - 1074) : ℚ) = 2 := by simp [gapBelow, hfirst]
      exact ⟨by linarith, fun h => by linarith [hodd h]⟩
  rw [hquarters]
  exact has_ofPosition (decode_normal e hlow hhigh) (hbinade.trans_le hlow) ⟨hbelow.1, by linarith⟩
    fun h => ⟨hbelow.2 h, by linarith [hodd h]⟩

/-- A significand that is rounded up to a power of two belongs to the next exponent. -/
theorem has_of_carry (e : ℕ) {y : ℚ} (hy : y < 2 * binade) (hround : RoundsTo y (2 * binade)) :
    (Interval.ofPosition ((e + 1) * binade + binade)).Has (y * 2 ^ ((e : ℤ) - 1074)) := by
  obtain ⟨hnear, -⟩ := hround
  push_cast at hnear
  have hdecode := decode_normal (e + 1) (Nat.le_refl binade) (by decide)
  have hquarters : y * 2 ^ ((e : ℤ) - 1074) = 2 * y * 2 ^ (((e + 1 : ℕ) : ℤ) - 1074 - 2) := by
    have hexponent : ((e + 1 : ℕ) : ℤ) - 1074 - 2 = (e : ℤ) - 1074 - 1 := by omega
    rw [hexponent, zpow_sub_one₀ two_ne_zero]
    ring
  have hgap : (1 : ℚ) ≤ gapBelow binade ((e + 1 : ℕ) - 1074) := by
    exact_mod_cast (gapBelow_pos_le binade ((e + 1 : ℕ) - 1074)).1
  rw [hquarters]
  exact has_ofPosition hdecode (by decide) ⟨by linarith, by linarith⟩ fun h => absurd h (by decide)

/-- A quotient lies in the interval of the position that it is rounded to, and the number there has all places. -/
theorem roundPosition_has {num den : ℕ} (hnum : 0 < num) (hden : 0 < den)
    (hlow : (2 : ℚ) ^ (-1022 : ℤ) ≤ num / den) (hhigh : (num / den : ℚ) < 2 ^ (1023 : ℤ)) :
    0 < roundPosition num den ∧ roundPosition num den < infinityPosition ∧
      (Interval.ofPosition (roundPosition num den)).Has (num / den) ∧
      ∃ m q, decode (roundPosition num den) = (m, q) ∧ binade ≤ m := by
  obtain ⟨e, s, y, hround, he, hs_low, hs_high, hy, hy_low, hy_high, hnear⟩ := roundPosition_eq hnum hden hlow hhigh
  have hposition : 0 < e * binade + s ∧ e * binade + s < infinityPosition := by
    simp only [binade, infinityPosition] at *
    omega
  rw [hround, hy]
  refine ⟨hposition.1, hposition.2, ?_⟩
  rcases Nat.lt_or_eq_of_le hs_high with hs | rfl
  · exact ⟨has_of_roundsTo e hs_low hs hy_low hnear, s, _, decode_normal e hs_low hs, hs_low⟩
  · have hcarry : e * binade + 2 * binade = (e + 1) * binade + binade := by ring
    rw [hcarry]
    exact ⟨has_of_carry e hy_high hnear, binade, _, decode_normal (e + 1) (Nat.le_refl _) (by decide), Nat.le_refl _⟩

/-- The interval of a number with all places is narrow. -/
theorem ofPosition_narrow {position m : ℕ} {q : ℤ} (h : decode position = (m, q)) (hm : binade ≤ m) {x : ℚ}
    (hx : (Interval.ofPosition position).Has x) :
    ((Interval.ofPosition position).highEnd - (Interval.ofPosition position).lowEnd) * 2 ^ 51 ≤ x := by
  have hbinade : 0 < binade := by decide
  obtain ⟨hlow, -, hhigh⟩ := ofPosition_ends h (hbinade.trans_le hm)
  have hpow : (0 : ℚ) < 2 ^ (q - 2) := by positivity
  have hgap : (gapBelow m q : ℚ) ≤ 2 := by exact_mod_cast (gapBelow_pos_le m q).2
  have hm' : (2 : ℚ) ^ 52 ≤ m := by
    have hcast : (binade : ℚ) ≤ m := by exact_mod_cast hm
    norm_num [binade] at hcast ⊢
    exact hcast
  refine le_trans ?_ hx.bounds.1
  rw [hlow, hhigh, ← sub_mul, mul_right_comm]
  refine mul_le_mul_of_nonneg_right ?_ hpow.le
  linarith

end UriRouting.Numeric.Binary64
