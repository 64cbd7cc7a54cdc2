import Mathlib.Data.Nat.Cast.Field
import UriRouting.Proofs.Numeric.Digits
import UriRouting.Proofs.Numeric.Rounding
/-!
The shortest decimal of a number.

A decimal of at most fifteen digits is the only one of its length or shorter in the interval of the number that it
is rounded to, so it is the one that is found again: `shortest_roundPosition`.
-/

namespace UriRouting.Numeric.Binary64

namespace Interval

variable {i : Interval} {p : ℤ}

/-! ## Multiples of a power of ten -/

/-- An interval in units of a power of ten, all over one denominator. -/
def scaled (i : Interval) (p : ℤ) : Interval :=
  { i with
    low := i.low * Nat.pow 10 (-p).toNat
    value := i.value * Nat.pow 10 (-p).toNat
    high := i.high * Nat.pow 10 (-p).toNat }

def unit (i : Interval) (p : ℤ) : ℕ := Nat.pow 10 p.toNat * i.denominator

theorem unit_pos (hden : 0 < i.denominator) (p : ℤ) : 0 < i.unit p :=
  Nat.mul_pos (Nat.pow_pos (by decide)) hden

theorem scaled_le (hden : 0 < i.denominator) (p : ℤ) (a n : ℕ) :
    a * Nat.pow 10 (-p).toNat ≤ n * i.unit p ↔ (a / i.denominator : ℚ) ≤ n * 10 ^ p := by
  have hden' : (0 : ℚ) < i.denominator := by exact_mod_cast hden
  have hpow : (0 : ℚ) < 10 ^ (-p).toNat := by positivity
  rw [← pow_toNat_div 10 p, ← mul_div_assoc, div_le_div_iff₀ hden' hpow, ← Nat.cast_le (α := ℚ), unit]
  push_cast [Nat.pow_eq]
  rw [mul_assoc (n : ℚ)]

theorem le_scaled (hden : 0 < i.denominator) (p : ℤ) (a n : ℕ) :
    n * i.unit p ≤ a * Nat.pow 10 (-p).toNat ↔ (n * 10 ^ p : ℚ) ≤ a / i.denominator := by
  have hden' : (0 : ℚ) < i.denominator := by exact_mod_cast hden
  have hpow : (0 : ℚ) < 10 ^ (-p).toNat := by positivity
  rw [← pow_toNat_div 10 p, ← mul_div_assoc, div_le_div_iff₀ hpow hden', ← Nat.cast_le (α := ℚ), unit]
  push_cast [Nat.pow_eq]
  rw [mul_assoc (n : ℚ)]

theorem contains_scaled (hden : 0 < i.denominator) (p : ℤ) (n : ℕ) :
    (i.scaled p).contains (n * i.unit p) = true ↔ i.Has (n * 10 ^ p) := by
  have hlow : (i.scaled p).low < n * i.unit p ↔ i.lowEnd < n * 10 ^ p := by
    rw [← not_le, ← not_le]
    exact not_congr (le_scaled hden p i.low n)
  have hhigh : n * i.unit p < (i.scaled p).high ↔ (n * 10 ^ p : ℚ) < i.highEnd := by
    rw [← not_le, ← not_le]
    exact not_congr (scaled_le hden p i.high n)
  have hclosed : (i.scaled p).closed = i.closed := rfl
  rw [contains, Has, hclosed]
  split
  · rw [Bool.and_eq_true, decide_eq_true_eq, decide_eq_true_eq]
    exact and_congr (scaled_le hden p i.low n) (le_scaled hden p i.high n)
  · rw [Bool.and_eq_true, decide_eq_true_eq, decide_eq_true_eq]
    exact and_congr hlow hhigh

/-- The search for a multiple looks at the two next to the number. -/
theorem nearestMultiple?_cases (hden : 0 < i.denominator) (p : ℤ) :
    ∃ n : ℕ, (n * 10 ^ p : ℚ) ≤ i.number ∧ i.number < (n + 1) * 10 ^ p ∧
      ((i.nearestMultiple? p = none ∧ ¬ (0 < n ∧ i.Has (n * 10 ^ p)) ∧ ¬ i.Has ((n + 1) * 10 ^ p)) ∨
        ∃ d : ℕ, i.nearestMultiple? p = some d ∧ 0 < d ∧ i.Has (d * 10 ^ p)) := by
  have hunit := i.unit_pos hden p
  set n := (i.scaled p).value / i.unit p with hn
  have hbelow : n * i.unit p ≤ (i.scaled p).value := Nat.div_mul_le_self _ _
  have habove : (i.scaled p).value < (n + 1) * i.unit p := by
    rw [Nat.mul_comm, hn]
    exact Nat.lt_mul_div_succ _ hunit
  have hnumber : i.number < (n + 1) * 10 ^ p := by
    have hnext := mt (le_scaled hden p i.value (n + 1)).mpr (Nat.not_le_of_gt habove)
    push_cast at hnext
    exact not_le.mp hnext
  refine ⟨n, (le_scaled hden p i.value n).mp hbelow, hnumber, ?_⟩
  have hfirst : (decide (0 < n) && (i.scaled p).contains (n * i.unit p)) = true ↔ 0 < n ∧ i.Has (n * 10 ^ p) := by
    rw [Bool.and_eq_true, decide_eq_true_eq, contains_scaled hden]
  have hsecond : (i.scaled p).contains ((n + 1) * i.unit p) = true ↔ i.Has ((n + 1 : ℕ) * 10 ^ p) :=
    contains_scaled hden p (n + 1)
  unfold nearestMultiple?
  dsimp only
  split
  · next hn hnext =>
    refine Or.inr ⟨_, rfl, ?_⟩
    split
    · exact hfirst.mp hn
    · exact ⟨n.succ_pos, hsecond.mp hnext⟩
  · next hn _ => exact Or.inr ⟨n, rfl, hfirst.mp hn⟩
  · next _ hnext => exact Or.inr ⟨n + 1, rfl, n.succ_pos, hsecond.mp hnext⟩
  · next hn hnext =>
    have hn : ¬ (0 < n ∧ i.Has (n * 10 ^ p)) := mt hfirst.mpr (Bool.eq_false_iff.mp hn)
    have hnext : ¬ i.Has ((n + 1 : ℕ) * 10 ^ p) := mt hsecond.mpr (Bool.eq_false_iff.mp hnext)
    push_cast at hnext
    exact Or.inl ⟨rfl, hn, hnext⟩

theorem nearestMultiple?_some (hden : 0 < i.denominator) {d : ℕ} (h : i.nearestMultiple? p = some d) :
    0 < d ∧ i.Has (d * 10 ^ p) := by
  obtain ⟨n, -, -, ⟨hnone, -, -⟩ | ⟨d', hsome, hd'⟩⟩ := nearestMultiple?_cases hden p
  · rw [hnone] at h
    cases h
  · rw [hsome] at h
    cases h
    exact hd'

/-- A number between what an interval has and its number is in the interval. -/
theorem Has.of_between {x y : ℚ} (hx : i.Has x) (hinside : i.lowEnd < i.number ∧ i.number < i.highEnd)
    (hy : (x ≤ y ∧ y ≤ i.number) ∨ (i.number < y ∧ y ≤ x)) : i.Has y := by
  rw [Has] at hx ⊢
  split at hx
  · next hclosed =>
    rw [if_pos hclosed]
    rcases hy with hy | hy
    · exact ⟨by linarith, by linarith⟩
    · exact ⟨by linarith, by linarith⟩
  · next hopen =>
    rw [if_neg hopen]
    rcases hy with hy | hy
    · exact ⟨by linarith, by linarith⟩
    · exact ⟨by linarith, by linarith⟩

theorem nearestMultiple?_ne_none (hden : 0 < i.denominator) (hinside : i.lowEnd < i.number ∧ i.number < i.highEnd)
    {d : ℕ} (hd : 0 < d) (h : i.Has (d * 10 ^ p)) : i.nearestMultiple? p ≠ none := by
  obtain ⟨n, hbelow, habove, ⟨-, hfirst, hsecond⟩ | ⟨d', hsome, -⟩⟩ := nearestMultiple?_cases hden p
  · exfalso
    have hpow : (0 : ℚ) < 10 ^ p := by positivity
    rcases Nat.lt_or_ge n d with hlt | hle
    · have hlt' : (n + 1 : ℚ) ≤ d := by exact_mod_cast hlt
      exact hsecond (h.of_between hinside (Or.inr ⟨habove, mul_le_mul_of_nonneg_right hlt' hpow.le⟩))
    · have hle' : (d : ℚ) ≤ n := by exact_mod_cast hle
      exact hfirst ⟨hd.trans_le hle, h.of_between hinside
        (Or.inl ⟨mul_le_mul_of_nonneg_right hle' hpow.le, hbelow⟩)⟩
  · rw [hsome]
    exact Option.some_ne_none d'

/-- In an interval narrower than a power of ten there is one multiple of it, and when ten does not divide the
multiple there is none of a higher power. -/
theorem Has.multiple_eq {m d : ℕ} {k : ℤ} (hm : i.Has (m * 10 ^ k)) (hdigits : ¬ 10 ∣ m)
    (hnarrow : i.highEnd - i.lowEnd < 10 ^ k) (hkp : k ≤ p) (hd : i.Has (d * 10 ^ p)) : p = k ∧ d = m := by
  have hpow : (0 : ℚ) < 10 ^ k := by positivity
  obtain ⟨j, rfl⟩ := Int.le.dest hkp
  have hunit : (d * 10 ^ (k + j) - m * 10 ^ k : ℚ) = (((d * 10 ^ j : ℕ) : ℤ) - (m : ℤ) : ℤ) * 10 ^ k := by
    rw [zpow_add₀ (by norm_num), zpow_natCast]
    push_cast
    ring
  have hdist : |(((d * 10 ^ j : ℕ) : ℤ) - (m : ℤ) : ℤ)| < 1 := by
    have hlt := (hd.abs_sub_le hm).trans_lt hnarrow
    rw [hunit, abs_mul, abs_of_pos hpow, mul_lt_iff_lt_one_left hpow] at hlt
    exact_mod_cast hlt
  have heq : d * 10 ^ j = m := by
    rw [Int.abs_lt_one_iff] at hdist
    omega
  cases j with
  | zero => exact ⟨by simp, by simpa using heq⟩
  | succ j => exact absurd ⟨d * 10 ^ j, by rw [← heq]; ring⟩ hdigits

/-! ## The search -/

/-- The search ends at the first power that has a multiple in the interval, where it does not run out of steps. -/
theorem coarsest_eq {k : ℤ} {d : ℕ} (hcoarser : ∀ p, k < p → i.nearestMultiple? p = none)
    (hfound : i.nearestMultiple? k = some d) {fuel : ℕ} (hkp : k ≤ p) (hfuel : p < k + fuel) :
    i.coarsest p fuel = (d, k) := by
  induction fuel generalizing p with
  | zero => omega
  | succ fuel ih =>
    rw [coarsest]
    rcases Int.lt_or_eq_of_le hkp with hlt | rfl
    · rw [hcoarser p hlt]
      exact ih (by omega) (by omega)
    · rw [hfound]

/-- What the search finds is a multiple in the interval, and before it there was none. -/
theorem coarsest_cases (i : Interval) (p : ℤ) (fuel : ℕ) : i.coarsest p fuel = (0, 0) ∨
    ∃ d k, i.coarsest p fuel = (d, k) ∧ i.nearestMultiple? k = some d ∧
      (k = p ∨ i.nearestMultiple? (k + 1) = none) := by
  induction fuel generalizing p with
  | zero => exact Or.inl rfl
  | succ fuel ih =>
    rw [coarsest]
    cases hfound : i.nearestMultiple? p with
    | some d => exact Or.inr ⟨d, p, rfl, hfound, Or.inl rfl⟩
    | none =>
      refine (ih (p - 1)).imp_right ?_
      rintro ⟨d, k, hsearch, hk, rfl | hnone⟩
      · exact ⟨d, p - 1, hsearch, hk, Or.inr (by rwa [Int.sub_add_cancel])⟩
      · exact ⟨d, k, hsearch, hk, Or.inr hnone⟩

theorem startPower_bounds (hvalue : 0 < i.value) (hden : 0 < i.denominator) :
    (10 : ℚ) ^ (i.startPower - 2) ≤ i.number ∧ i.number ≤ 10 ^ i.startPower := by
  have hvalue' : (0 : ℚ) < i.value := by exact_mod_cast hvalue
  have hden' : (0 : ℚ) < i.denominator := by exact_mod_cast hden
  have hpow : ∀ (a b : ℕ), 0 < b → 0 < a / b → ∃ l : ℕ, (Nat.toDigits 10 (a / b)).length = l + 1 ∧
      (10 : ℚ) ^ l ≤ a / b ∧ (a / b : ℚ) < 10 ^ (l + 1) := by
    intro a b hb hquotient
    obtain ⟨l, hlength, hlow, hhigh⟩ := pow_length_toDigits hquotient
    have hb' : (0 : ℚ) < b := by exact_mod_cast hb
    refine ⟨l, hlength, ?_, ?_⟩
    · rw [le_div_iff₀ hb']
      exact_mod_cast (Nat.le_div_iff_mul_le hb).mp hlow
    · rw [div_lt_iff₀ hb']
      exact_mod_cast (Nat.div_lt_iff_lt_mul hb).mp hhigh
  rw [startPower, number]
  split
  · next hle =>
    obtain ⟨l, hlength, hlow, hhigh⟩ := hpow i.value i.denominator hden (Nat.div_pos hle hden)
    rw [hlength]
    constructor
    · refine le_trans ?_ hlow
      rw [← zpow_natCast]
      exact zpow_le_zpow_right₀ (by norm_num) (by omega)
    · rw [zpow_natCast]
      exact hhigh.le
  · next hlt =>
    obtain ⟨l, hlength, hlow, hhigh⟩ := hpow i.denominator i.value hvalue (Nat.div_pos (by omega) hvalue)
    rw [hlength, ← inv_div]
    constructor
    · have hexponent : 2 - ((l + 1 : ℕ) : ℤ) - 2 = -((l + 1 : ℕ) : ℤ) := by omega
      rw [hexponent, zpow_neg, zpow_natCast]
      exact inv_anti₀ (by positivity) hhigh.le
    · calc ((i.denominator : ℚ) / i.value)⁻¹ ≤ (10 ^ l)⁻¹ := inv_anti₀ (by positivity) hlow
        _ = 10 ^ (-(l : ℤ)) := by rw [zpow_neg, zpow_natCast]
        _ ≤ 10 ^ (2 - ((l + 1 : ℕ) : ℤ)) := zpow_le_zpow_right₀ (by norm_num) (by omega)

/-- A decimal of few digits in a narrow interval is found by the search. -/
theorem Has.coarsest_eq {m : ℕ} {k : ℤ} (hm : i.Has (m * 10 ^ k)) (hdigits : ¬ 10 ∣ m) (hfew : m < 10 ^ 15)
    (hnarrow : i.highEnd - i.lowEnd < 10 ^ k / 2) (hinside : i.lowEnd < i.number ∧ i.number < i.highEnd)
    (hvalue : 0 < i.value) (hden : 0 < i.denominator) : i.coarsest i.startPower 25 = (m, k) := by
  have hpow : (0 : ℚ) < 10 ^ k := by positivity
  have hnarrow' : i.highEnd - i.lowEnd < 10 ^ k := by linarith
  have hpos : 0 < m := Nat.pos_of_ne_zero fun hzero => hdigits (hzero ▸ Nat.dvd_zero 10)
  obtain ⟨hstart, hstart'⟩ := startPower_bounds hvalue hden
  -- the number is less than half a unit away from the decimal
  have hclose := abs_le.mp (hm.abs_sub_le (has_of_lt hinside.1 hinside.2))
  have hlow : (10 ^ k : ℚ) ≤ m * 10 ^ k := le_mul_of_one_le_left hpow.le (by exact_mod_cast hpos)
  have hhigh : (m * 10 ^ k : ℚ) < 10 ^ 15 * 10 ^ k := mul_lt_mul_of_pos_right (by exact_mod_cast hfew) hpow
  have hk : k - 1 < i.startPower := by
    refine (zpow_lt_zpow_iff_right₀ (by norm_num : (1 : ℚ) < 10)).mp (lt_of_lt_of_le ?_ hstart')
    rw [zpow_sub_one₀ (by norm_num)]
    linarith
  have hk' : i.startPower - 2 < k + 16 := by
    refine (zpow_lt_zpow_iff_right₀ (by norm_num : (1 : ℚ) < 10)).mp (lt_of_le_of_lt hstart ?_)
    have hsixteen : (10 : ℚ) ^ (k + 16) = 10 ^ 16 * 10 ^ k := by
      rw [zpow_add₀ (by norm_num), mul_comm]
      rfl
    rw [hsixteen]
    linarith
  have hunique : ∀ p d, k ≤ p → i.nearestMultiple? p = some d → p = k ∧ d = m := fun p d hkp hfound =>
    hm.multiple_eq hdigits hnarrow' hkp (nearestMultiple?_some hden hfound).2
  have hcoarser : ∀ p, k < p → i.nearestMultiple? p = none := by
    intro p hkp
    cases hfound : i.nearestMultiple? p with
    | none => rfl
    | some d => exact absurd (hunique p d hkp.le hfound).1 hkp.ne'
  obtain ⟨d, hfound⟩ := Option.ne_none_iff_exists'.mp (nearestMultiple?_ne_none hden hinside hpos hm)
  obtain ⟨-, rfl⟩ := hunique k d le_rfl hfound
  exact Interval.coarsest_eq hcoarser hfound (by omega) (by omega)

end Interval

/-! ## Positions -/

theorem exists_decode {position : ℕ} (hpos : 0 < position) : ∃ m q, decode position = (m, q) ∧ 0 < m := by
  refine ⟨_, _, rfl, ?_⟩
  change 0 < (decode position).1
  unfold decode
  dsimp only
  split
  · next hzero =>
    simp only [binade] at *
    omega
  · exact Nat.add_pos_left (by decide) _

theorem ofPosition_inside {position : ℕ} (hpos : 0 < position) :
    (Interval.ofPosition position).lowEnd < (Interval.ofPosition position).number ∧
      (Interval.ofPosition position).number < (Interval.ofPosition position).highEnd := by
  obtain ⟨m, q, hdecode, hm⟩ := exists_decode hpos
  obtain ⟨hlow, hnumber, hhigh⟩ := ofPosition_ends hdecode hm
  have hpow : (0 : ℚ) < 2 ^ (q - 2) := by positivity
  have hgap : (1 : ℚ) ≤ gapBelow m q := by exact_mod_cast (gapBelow_pos_le m q).1
  rw [hlow, hnumber, hhigh]
  exact ⟨mul_lt_mul_of_pos_right (by linarith) hpow, mul_lt_mul_of_pos_right (by linarith) hpow⟩

theorem ofPosition_value_pos {position : ℕ} (hpos : 0 < position) : 0 < (Interval.ofPosition position).value := by
  obtain ⟨m, q, hdecode, hm⟩ := exists_decode hpos
  simp only [Interval.ofPosition, hdecode]
  exact Nat.mul_pos (Nat.mul_pos (by decide) hm) (Nat.pow_pos Nat.two_pos)

theorem shortest_of_coarsest {position d : ℕ} {k : ℤ}
    (h : (Interval.ofPosition position).coarsest (Interval.ofPosition position).startPower 25 = (d, k)) :
    shortest position = (Nat.toDigits 10 d, k) := by
  unfold shortest
  dsimp only
  rw [h]

/-- The digits of the shortest decimal do not end with a zero: then it would have been found one power earlier. -/
theorem shortest_cases {position : ℕ} (hpos : 0 < position) : shortest position = (['0'], 0) ∨
    ∃ d k, shortest position = (Nat.toDigits 10 d, k) ∧ 0 < d ∧ ¬ 10 ∣ d := by
  have hden := ofPosition_denominator_pos position
  have hstart := (Interval.startPower_bounds (ofPosition_value_pos hpos) hden).2
  obtain hzero | ⟨d, k, hsearch, hfound, hcoarser⟩ :=
    Interval.coarsest_cases (Interval.ofPosition position) (Interval.ofPosition position).startPower 25
  · exact Or.inl (shortest_of_coarsest hzero)
  · obtain ⟨hd, hhas⟩ := Interval.nearestMultiple?_some hden hfound
    refine Or.inr ⟨d, k, shortest_of_coarsest hsearch, hd, ?_⟩
    rintro ⟨c, rfl⟩
    rcases hcoarser with rfl | hnone
    · -- the first power is above the number, and the interval does not reach to its double
      obtain ⟨m, q, hdecode, hm⟩ := exists_decode hpos
      obtain ⟨-, hnumber, hhigh⟩ := ofPosition_ends hdecode hm
      have hpow : (0 : ℚ) < 2 ^ (q - 2) := by positivity
      have hm' : (1 : ℚ) ≤ m := by exact_mod_cast hm
      have hreach : (Interval.ofPosition position).highEnd ≤ 3 / 2 * (Interval.ofPosition position).number := by
        rw [hnumber, hhigh, ← mul_assoc]
        exact mul_le_mul_of_nonneg_right (by linarith) hpow.le
      have hunit : (0 : ℚ) < 10 ^ (Interval.ofPosition position).startPower := by positivity
      have hc : (10 : ℚ) ≤ (10 * c : ℕ) := by
        exact_mod_cast (by omega : 10 ≤ 10 * c)
      have hmultiple := mul_le_mul_of_nonneg_right hc hunit.le
      linarith [hhas.bounds.2]
    · refine Interval.nearestMultiple?_ne_none hden (ofPosition_inside hpos) (Nat.pos_of_mul_pos_left hd) ?_ hnone
      have hten : (c * 10 ^ (k + 1) : ℚ) = (10 * c : ℕ) * 10 ^ k := by
        rw [zpow_add_one₀ (by norm_num)]
        push_cast
        ring
      rwa [hten]

/-! ## Decimals of few digits -/

section

variable {num den m : ℕ} {k : ℤ}

theorem roundPosition_narrow (hnum : 0 < num) (hden : 0 < den) (hlow : (2 : ℚ) ^ (-1022 : ℤ) ≤ num / den)
    (hhigh : (num / den : ℚ) < 2 ^ (1023 : ℤ)) (hdecimal : (num / den : ℚ) = m * 10 ^ k) (hfew : m < 10 ^ 15) :
    (Interval.ofPosition (roundPosition num den)).Has (m * 10 ^ k) ∧
      (Interval.ofPosition (roundPosition num den)).highEnd - (Interval.ofPosition (roundPosition num den)).lowEnd
        < 10 ^ k / 2 := by
  obtain ⟨-, -, hhas, s, q, hdecode, hs⟩ := roundPosition_has hnum hden hlow hhigh
  have hpow : (0 : ℚ) < 10 ^ k := by positivity
  have hnarrow := ofPosition_narrow hdecode hs hhas
  rw [hdecimal] at hhas hnarrow
  have hbelow : (m * 10 ^ k : ℚ) < 10 ^ 15 * 10 ^ k := mul_lt_mul_of_pos_right (by exact_mod_cast hfew) hpow
  exact ⟨hhas, by linarith⟩

/-- A decimal of at most fifteen digits, in lowest terms, is what is printed of the number that it is rounded to. -/
theorem shortest_roundPosition (hnum : 0 < num) (hden : 0 < den) (hlow : (2 : ℚ) ^ (-1022 : ℤ) ≤ num / den)
    (hhigh : (num / den : ℚ) < 2 ^ (1023 : ℤ)) (hdecimal : (num / den : ℚ) = m * 10 ^ k) (hdigits : ¬ 10 ∣ m)
    (hfew : m < 10 ^ 15) : shortest (roundPosition num den) = (Nat.toDigits 10 m, k) := by
  obtain ⟨hhas, hnarrow⟩ := roundPosition_narrow hnum hden hlow hhigh hdecimal hfew
  obtain ⟨hpos, -⟩ := roundPosition_has hnum hden hlow hhigh
  exact shortest_of_coarsest (hhas.coarsest_eq hdigits hfew hnarrow (ofPosition_inside hpos)
    (ofPosition_value_pos hpos) (ofPosition_denominator_pos _))

theorem number_of_toInt? {position : ℕ} (hpos : 0 < position) {i : ℤ}
    (h : (signed false position).toInt? = some i) : ∃ n : ℕ, (Interval.ofPosition position).number = n := by
  obtain ⟨s, q, hdecode, hs⟩ := exists_decode hpos
  have hpow : ((s * Nat.pow 2 q.toNat : ℕ) : ℚ) = s * 2 ^ q * (Nat.pow 2 (-q).toNat : ℕ) := by
    rw [← pow_toNat_div 2 q]
    push_cast [Nat.pow_eq]
    field_simp
  simp only [toInt?, hdecode, Bool.false_eq_true, if_false] at h
  split at h
  · cases h
  · split at h
    · next hwhole =>
      refine ⟨s * Nat.pow 2 q.toNat / Nat.pow 2 (-q).toNat, ?_⟩
      have hbelow : ((Nat.pow 2 (-q).toNat : ℕ) : ℚ) ≠ 0 := by
        exact_mod_cast (Nat.pow_pos Nat.two_pos).ne'
      rw [(ofPosition_ends hdecode hs).2.1, Nat.cast_div (Nat.dvd_of_mod_eq_zero hwhole) hbelow,
        hpow, mul_div_cancel_right₀ _ hbelow, zpow_sub₀ two_ne_zero]
      ring
    · cases h

/-- A decimal of at most fifteen digits with places behind the point is not rounded to an integer. -/
theorem toInt?_roundPosition (hnum : 0 < num) (hden : 0 < den) (hlow : (2 : ℚ) ^ (-1022 : ℤ) ≤ num / den)
    (hhigh : (num / den : ℚ) < 2 ^ (1023 : ℤ)) (hdecimal : (num / den : ℚ) = m * 10 ^ k) (hdigits : ¬ 10 ∣ m)
    (hfew : m < 10 ^ 15) (hplaces : k < 0) : (signed false (roundPosition num den)).toInt? = none := by
  obtain ⟨hhas, hnarrow⟩ := roundPosition_narrow hnum hden hlow hhigh hdecimal hfew
  obtain ⟨hpos, -⟩ := roundPosition_has hnum hden hlow hhigh
  have hinside := ofPosition_inside hpos
  have hpow : (0 : ℚ) < 10 ^ k := by positivity
  cases hint : (signed false (roundPosition num den)).toInt? with
  | none => rfl
  | some i =>
    obtain ⟨n, hnumber⟩ := number_of_toInt? hpos hint
    have hn : (Interval.ofPosition (roundPosition num den)).Has (n * 10 ^ (0 : ℤ)) := by
      rw [zpow_zero, mul_one, ← hnumber]
      exact Interval.has_of_lt hinside.1 hinside.2
    exact absurd (hhas.multiple_eq hdigits (by linarith) hplaces.le hn).1 hplaces.ne'

end

end UriRouting.Numeric.Binary64
