import UriRouting.Proofs.Numeric.Reading
import UriRouting.Proofs.Numeric.Rounding
/-!
Integers among the numbers of the format.

An integer is rounded to `nearest`, a multiple of its last place, which is the integer itself if it has at most 53
places: `nearest_eq_iff`. The order of integers is kept, though different integers may become one number:
`le_ofInt`, `lt_ofInt`. No two do so of which one is below `2 ^ 53`.
-/

namespace UriRouting.Numeric.Binary64

/-! ## Rounding to an integer -/

section

variable {a b c d : ℕ}

theorem roundQuotient_mono (d : ℕ) (h : a ≤ b) : roundQuotient a d ≤ roundQuotient b d := by
  have ha := Nat.div_add_mod a d
  have hb := Nat.div_add_mod b d
  obtain hlt | heq := Nat.lt_or_eq_of_le (Nat.div_le_div_right (c := d) h)
  · -- each quotient is rounded to one of the integers next to it
    have hlow : roundQuotient a d ≤ a / d + 1 := by
      simp only [roundQuotient]
      split_ifs <;> omega
    have hhigh : b / d ≤ roundQuotient b d := by
      simp only [roundQuotient]
      split_ifs <;> omega
    omega
  · rw [heq] at ha
    have hrest : a % d ≤ b % d := by omega
    simp only [roundQuotient, heq]
    split_ifs <;> omega

theorem roundQuotient_mul (c : ℕ) (hd : 0 < d) : roundQuotient (c * d) d = c := by
  simp only [roundQuotient, Nat.mul_mod_left, Nat.mul_div_cancel c hd]
  rw [if_pos (by omega)]

theorem roundQuotient_scale (a b : ℕ) (hc : 0 < c) : roundQuotient (a * c) (b * c) = roundQuotient a b := by
  have hcompare : ∀ {x y : ℕ}, x * c < y * c ↔ x < y := Nat.mul_lt_mul_right hc
  simp only [roundQuotient, Nat.mul_div_mul_right a b hc, Nat.mul_mod_mul_right, ← Nat.mul_assoc, hcompare]

theorem roundQuotient_one (c : ℕ) : roundQuotient c 1 = c := by
  have hmul := roundQuotient_mul c Nat.one_pos
  rwa [Nat.mul_one] at hmul

theorem le_roundQuotient (hd : 0 < d) (h : c * d ≤ a) : c ≤ roundQuotient a d :=
  (roundQuotient_mul c hd).symm.trans_le (roundQuotient_mono d h)

theorem roundQuotient_le (hd : 0 < d) (h : a ≤ c * d) : roundQuotient a d ≤ c :=
  (roundQuotient_mono d h).trans_eq (roundQuotient_mul c hd)

end

/-! ## Rounding equal quotients -/

theorem leadingExponent_unique {x : ℚ} {k k' : ℤ} (h : 2 ^ k ≤ x ∧ x < 2 ^ (k + 1)) (h' : 2 ^ k' ≤ x ∧ x < 2 ^ (k' + 1)) :
    k = k' := by
  have hlt := (zpow_lt_zpow_iff_right₀ one_lt_two).mp (h.1.trans_lt h'.2)
  have hlt' := (zpow_lt_zpow_iff_right₀ one_lt_two).mp (h'.1.trans_lt h.2)
  omega

theorem roundPosition_scale {num den c : ℕ} (hnum : 0 < num) (hden : 0 < den) (hc : 0 < c) :
    roundPosition (num * c) (den * c) = roundPosition num den := by
  have hquotient : ((num * c : ℕ) : ℚ) / (den * c : ℕ) = num / den := by
    have hc' : (c : ℚ) ≠ 0 := by exact_mod_cast hc.ne'
    push_cast
    exact mul_div_mul_right _ _ hc'
  have hspec := leadingExponent_spec (Nat.mul_pos hnum hc) (Nat.mul_pos hden hc)
  rw [hquotient] at hspec
  have hexponent := leadingExponent_unique hspec (leadingExponent_spec hnum hden)
  simp only [roundPosition, hexponent, Nat.mul_right_comm _ c, roundQuotient_scale _ _ hc]

/-! ## Positions of integers -/

/-- The significand of an integer: its first 53 places, with zeros behind them if there are fewer. -/
def significand (n : ℕ) : ℕ := roundQuotient (n * 2 ^ (52 - n.log2)) (2 ^ (n.log2 - 52))

/-- The integer nearest to `n` among those with at most 53 places, the one with an even significand of two. -/
def nearest (n : ℕ) : ℕ := roundQuotient n (2 ^ (n.log2 - 52)) * 2 ^ (n.log2 - 52)

section

variable {a b n : ℕ}

theorem pow_log2_bounds (hn : 0 < n) : 2 ^ n.log2 ≤ n ∧ n < 2 ^ (n.log2 + 1) :=
  ⟨Nat.log2_self_le hn.ne', Nat.lt_log2_self⟩

theorem log2_mono (ha : 0 < a) (h : a ≤ b) : a.log2 ≤ b.log2 := by
  have hlow := (pow_log2_bounds ha).1
  have hhigh := (pow_log2_bounds (ha.trans_le h)).2
  have hpow : 2 ^ a.log2 < 2 ^ (b.log2 + 1) := by omega
  have hlt := (Nat.pow_lt_pow_iff_right (by decide)).mp hpow
  omega

theorem log2_le_of_lt (hn : 0 < n) (h : n < 2 ^ 53) : n.log2 ≤ 52 := by
  have hlow := (pow_log2_bounds hn).1
  have hlt := (Nat.pow_lt_pow_iff_right (by decide)).mp (hlow.trans_lt h)
  omega

theorem le_log2_of_le {k : ℕ} (h : 2 ^ k ≤ n) : k ≤ n.log2 := by
  have hhigh := (pow_log2_bounds ((Nat.two_pow_pos k).trans_le h)).2
  have hlt := (Nat.pow_lt_pow_iff_right (by decide)).mp (h.trans_lt hhigh)
  omega

theorem significand_of_le (h : n.log2 ≤ 52) : significand n = n * 2 ^ (52 - n.log2) ∧ nearest n = n := by
  have hzero : n.log2 - 52 = 0 := by omega
  rw [significand, nearest, hzero, Nat.pow_zero, roundQuotient_one, roundQuotient_one, Nat.mul_one]
  exact ⟨rfl, rfl⟩

theorem significand_of_ge (h : 52 ≤ n.log2) : significand n = roundQuotient n (2 ^ (n.log2 - 52)) ∧
    nearest n = significand n * 2 ^ (n.log2 - 52) := by
  have hzero : 52 - n.log2 = 0 := by omega
  rw [nearest, significand, hzero, Nat.pow_zero, Nat.mul_one]
  exact ⟨rfl, rfl⟩

theorem significand_bounds (hn : 0 < n) : binade ≤ significand n ∧ significand n ≤ 2 * binade := by
  obtain ⟨hlow, hhigh⟩ := pow_log2_bounds hn
  have hbinade : binade = 2 ^ 52 := rfl
  obtain hle | hge := Nat.le_total n.log2 52
  · have hlow' : 2 ^ n.log2 * 2 ^ (52 - n.log2) ≤ n * 2 ^ (52 - n.log2) := Nat.mul_le_mul_right _ hlow
    have hhigh' : n * 2 ^ (52 - n.log2) ≤ 2 ^ (n.log2 + 1) * 2 ^ (52 - n.log2) := Nat.mul_le_mul_right _ hhigh.le
    rw [← Nat.pow_add, show n.log2 + (52 - n.log2) = 52 by omega] at hlow'
    rw [← Nat.pow_add, show n.log2 + 1 + (52 - n.log2) = 53 by omega] at hhigh'
    rw [(significand_of_le hle).1, hbinade]
    omega
  · have hlow' : 2 ^ 52 * 2 ^ (n.log2 - 52) ≤ n := by
      rwa [← Nat.pow_add, show 52 + (n.log2 - 52) = n.log2 by omega]
    have hhigh' : n ≤ 2 ^ 53 * 2 ^ (n.log2 - 52) := by
      rw [← Nat.pow_add, show 53 + (n.log2 - 52) = n.log2 + 1 by omega]
      exact hhigh.le
    rw [(significand_of_ge hge).1, hbinade]
    exact ⟨le_roundQuotient (Nat.two_pow_pos _) hlow', roundQuotient_le (Nat.two_pow_pos _) hhigh'⟩

theorem leadingExponent_one (hn : 0 < n) : leadingExponent n 1 = n.log2 := by
  have hzero : Nat.log2 1 = 0 := by decide
  have hlow := (pow_log2_bounds hn).1
  simp only [leadingExponent, hzero, Nat.cast_zero, sub_zero, Int.toNat_natCast, Int.toNat_neg_natCast, Nat.pow_eq,
    Nat.pow_zero, Nat.mul_one, Nat.one_mul]
  rw [if_neg (by omega)]

theorem roundPosition_one (hn : 0 < n) :
    roundPosition n 1 = min ((n.log2 + 1022) * binade + significand n) infinityPosition := by
  have hq : max ((n.log2 : ℤ) - 52) (-1074) = n.log2 - 52 := by omega
  have hexponent : ((n.log2 : ℤ) - 52 + 1074).toNat = n.log2 + 1022 := by omega
  have hup : (-((n.log2 : ℤ) - 52)).toNat = 52 - n.log2 := by omega
  have hdown : ((n.log2 : ℤ) - 52).toNat = n.log2 - 52 := by omega
  simp only [roundPosition, leadingExponent_one hn, hq, hexponent, hup, hdown, Nat.pow_eq, Nat.one_mul]
  rfl

theorem roundPosition_one_pos (hn : 0 < n) : 0 < roundPosition n 1 := by
  rw [roundPosition_one hn]
  simp only [binade, infinityPosition]
  omega

/-- Rounding keeps the order of integers. -/
theorem roundPosition_one_mono (ha : 0 < a) (h : a ≤ b) : roundPosition a 1 ≤ roundPosition b 1 := by
  have hb : 0 < b := ha.trans_le h
  have hbounds := significand_bounds ha
  have hbounds' := significand_bounds hb
  rw [roundPosition_one ha, roundPosition_one hb]
  refine min_le_min_right _ ?_
  obtain hlt | heq := Nat.lt_or_eq_of_le (log2_mono ha h)
  · simp only [binade] at *
    omega
  · have hmono : significand a ≤ significand b := by
      rw [significand, significand, heq]
      exact roundQuotient_mono _ (Nat.mul_le_mul_right _ h)
    rw [heq]
    exact Nat.add_le_add_left hmono _

theorem toInt?_signed {position m above below w : ℕ} {q : ℤ} (hfinite : position < infinityPosition)
    (hdecode : decode position = (m, q)) (habove : m * 2 ^ q.toNat = above) (hbelow : 2 ^ (-q).toNat = below)
    (hwhole : above = w * below) (negative : Bool) :
    (signed negative position).toInt? = some (if negative then -(w : ℤ) else w) := by
  have hpos : 0 < below := hbelow ▸ Nat.two_pow_pos _
  simp only [toInt?, hdecode, Nat.pow_eq, habove, hbelow, hwhole, Nat.mul_mod_left, Nat.mul_div_cancel w hpos]
  rw [if_neg (Nat.not_le_of_gt hfinite)]
  rfl

/-- What an integer becomes is an integer again, the nearest one, if it is not too large. -/
theorem toInt?_roundPosition_one (hn : 0 < n) (negative : Bool) : (signed negative (roundPosition n 1)).toInt? =
    if infinityPosition ≤ (n.log2 + 1022) * binade + significand n then none
    else some (if negative then -(nearest n : ℤ) else nearest n) := by
  obtain ⟨hlow, hhigh⟩ := significand_bounds hn
  rw [roundPosition_one hn]
  split
  · next hinfinite =>
    rw [Nat.min_eq_right hinfinite, toInt?, if_pos (Nat.le_refl _)]
  · next hfinite =>
    have hfinite := Nat.lt_of_not_le hfinite
    rw [Nat.min_eq_left hfinite.le]
    obtain hlt | heq := Nat.lt_or_eq_of_le hhigh
    · refine toInt?_signed hfinite (decode_normal _ hlow hlt) rfl rfl ?_ negative
      have hup : (-(((n.log2 + 1022 : ℕ) : ℤ) - 1074)).toNat = 52 - n.log2 := by omega
      have hdown : (((n.log2 + 1022 : ℕ) : ℤ) - 1074).toNat = n.log2 - 52 := by omega
      rw [hup, hdown]
      obtain hle | hge := Nat.le_total n.log2 52
      · obtain ⟨hsignificand, hnearest⟩ := significand_of_le hle
        rw [hsignificand, hnearest, show n.log2 - 52 = 0 by omega, Nat.pow_zero, Nat.mul_one]
      · rw [(significand_of_ge hge).2, show 52 - n.log2 = 0 by omega, Nat.pow_zero, Nat.mul_one]
    · -- Rounding up to a power of two is for integers with more than 53 places.
      have hge : 53 ≤ n.log2 := by
        refine Nat.lt_of_not_le fun hle => ?_
        have hpow : n * 2 ^ (52 - n.log2) < 2 ^ (n.log2 + 1) * 2 ^ (52 - n.log2) :=
          Nat.mul_lt_mul_of_pos_right (pow_log2_bounds hn).2 (Nat.two_pow_pos _)
        rw [← Nat.pow_add, show n.log2 + 1 + (52 - n.log2) = 53 by omega, ← (significand_of_le hle).1, heq] at hpow
        exact absurd hpow (by decide)
      have hposition : (n.log2 + 1022) * binade + significand n = (n.log2 + 1023) * binade + binade := by
        rw [heq]
        simp only [binade]
        omega
      rw [hposition] at hfinite ⊢
      refine toInt?_signed hfinite (decode_normal _ (Nat.le_refl _) (by decide)) rfl rfl ?_ negative
      have hup : (-(((n.log2 + 1023 : ℕ) : ℤ) - 1074)).toNat = 0 := by omega
      have hdown : (((n.log2 + 1023 : ℕ) : ℤ) - 1074).toNat = (n.log2 - 52) + 1 := by omega
      rw [hup, hdown, (significand_of_ge (by omega)).2, heq, Nat.pow_succ, Nat.pow_zero, Nat.mul_one]
      ring

/-! ## Nearest integers -/

theorem nearest_of_lt (h : n < 2 ^ 53) : nearest n = n := by
  obtain rfl | hn := Nat.eq_zero_or_pos n
  · decide
  · exact (significand_of_le (log2_le_of_lt hn h)).2

theorem pow_le_nearest {k : ℕ} (hk : 52 ≤ k) (h : 2 ^ k ≤ n) : 2 ^ k ≤ nearest n := by
  have hlog := le_log2_of_le h
  have hlow := (significand_bounds ((Nat.two_pow_pos k).trans_le h)).1
  have hbinade : binade = 2 ^ 52 := rfl
  rw [(significand_of_ge (hk.trans hlog)).2]
  calc 2 ^ k ≤ 2 ^ n.log2 := Nat.pow_le_pow_right (by decide) hlog
    _ = 2 ^ 52 * 2 ^ (n.log2 - 52) := by rw [← Nat.pow_add, show 52 + (n.log2 - 52) = n.log2 by omega]
    _ ≤ significand n * 2 ^ (n.log2 - 52) := Nat.mul_le_mul_right _ (hbinade ▸ hlow)

/-- An integer has at most 53 places, besides zeros behind them. -/
def HasFewPlaces (n : ℕ) : Prop := ∃ m k, n = m * 2 ^ k ∧ m < 2 ^ 53

/-- The integers that are not changed by rounding are those with at most 53 places. -/
theorem nearest_eq_iff : nearest n = n ↔ HasFewPlaces n := by
  constructor
  · intro h
    obtain rfl | hn := Nat.eq_zero_or_pos n
    · exact ⟨0, 0, rfl, by decide⟩
    obtain hlt | hge := Nat.lt_or_ge n (2 ^ 53)
    · exact ⟨n, 0, (Nat.mul_one n).symm, hlt⟩
    have hlog := le_log2_of_le hge
    have hsplit := (significand_of_ge (show 52 ≤ n.log2 by omega)).2
    rw [h] at hsplit
    obtain hlt | heq := Nat.lt_or_eq_of_le (significand_bounds hn).2
    · exact ⟨_, _, hsplit, hlt⟩
    · have hpow : 2 * binade = 2 ^ 53 := rfl
      refine ⟨1, 53 + (n.log2 - 52), ?_, by decide⟩
      rw [Nat.one_mul, Nat.pow_add, ← hpow, ← heq]
      exact hsplit
  · intro h
    obtain ⟨m, k, hsplit, hm⟩ := h
    obtain hle | hge := Nat.le_total n.log2 52
    · exact (significand_of_le hle).2
    · obtain rfl | hn := Nat.eq_zero_or_pos n
      · decide
      -- The zeros behind the places go at least as far as the last place that is kept.
      have hpow : 2 ^ n.log2 < 2 ^ (53 + k) := by
        rw [Nat.pow_add]
        refine (pow_log2_bounds hn).1.trans_lt ?_
        conv_lhs => rw [hsplit]
        exact Nat.mul_lt_mul_of_pos_right hm (Nat.two_pow_pos k)
      have hk : n.log2 - 52 ≤ k := by
        have hlt := (Nat.pow_lt_pow_iff_right (by decide)).mp hpow
        omega
      obtain ⟨i, rfl⟩ := Nat.exists_eq_add_of_le hk
      have hmultiple : n = m * 2 ^ i * 2 ^ (n.log2 - 52) := by
        conv_lhs => rw [hsplit]
        rw [Nat.pow_add]
        ring
      have hround := roundQuotient_mul (m * 2 ^ i) (Nat.two_pow_pos (n.log2 - 52))
      rw [← hmultiple] at hround
      rw [nearest, hround, ← hmultiple]

end

/-! ## Order -/

/-- The place of an integer among all numbers. -/
def placeOf (i : ℤ) : ℤ := i.sign * roundPosition i.natAbs 1

theorem rank?_ofInt (i : ℤ) : (ofInt i).rank? = some (placeOf i) := by
  rw [ofInt, rank?, placeOf]
  obtain hneg | rfl | hpos := lt_trichotomy i 0
  · simp [hneg, hneg.ne, Int.sign_eq_neg_one_of_neg hneg]
  · simp
  · simp [hpos.not_gt, hpos.ne', Int.sign_eq_one_of_pos hpos]

theorem placeOf_natCast {n : ℕ} (hn : 0 < n) : placeOf n = roundPosition n 1 := by
  rw [placeOf, Int.sign_natCast_of_ne_zero hn.ne', Int.natAbs_natCast, one_mul]

theorem placeOf_neg (i : ℤ) : placeOf (-i) = -placeOf i := by
  rw [placeOf, placeOf, Int.sign_neg, Int.natAbs_neg, Int.neg_mul]

theorem placeOf_nonneg {i : ℤ} (h : 0 ≤ i) : 0 ≤ placeOf i :=
  Int.mul_nonneg (Int.sign_nonneg_iff.mpr h) (Int.natCast_nonneg _)

theorem placeOf_mono {i j : ℤ} (h : i ≤ j) : placeOf i ≤ placeOf j := by
  have hpositive : ∀ {i j : ℤ}, 0 ≤ i → i ≤ j → placeOf i ≤ placeOf j := by
    intro i j hi h
    obtain rfl | hi := hi.eq_or_lt
    · rw [placeOf, Int.sign_zero, Int.zero_mul]
      exact placeOf_nonneg h
    · obtain ⟨a, rfl⟩ := Int.eq_ofNat_of_zero_le hi.le
      obtain ⟨b, rfl⟩ := Int.eq_ofNat_of_zero_le (hi.le.trans h)
      have ha : 0 < a := by exact_mod_cast hi
      have hab : a ≤ b := by exact_mod_cast h
      rw [placeOf_natCast ha, placeOf_natCast (ha.trans_le hab)]
      exact_mod_cast roundPosition_one_mono ha hab
  obtain hi | hi := Int.le_total 0 i
  · exact hpositive hi h
  · obtain hj | hj := Int.le_total 0 j
    · have hneg := placeOf_nonneg (i := -i) (by omega)
      have hpos := placeOf_nonneg hj
      rw [placeOf_neg] at hneg
      omega
    · have hmono := hpositive (i := -j) (j := -i) (by omega) (by omega)
      rw [placeOf_neg, placeOf_neg] at hmono
      omega

theorem ofInt_eq_iff {i j : ℤ} : ofInt i = ofInt j ↔ placeOf i = placeOf j := by
  constructor
  · intro h
    have hrank := rank?_ofInt i
    rw [h, rank?_ofInt] at hrank
    exact (Option.some.inj hrank).symm
  · intro h
    have hsign : ∀ i : ℤ, (placeOf i).sign = i.sign := by
      intro i
      obtain rfl | hi := eq_or_ne i 0
      · simp [placeOf]
      · have hpos := roundPosition_one_pos (n := i.natAbs) (by omega)
        rw [placeOf, Int.sign_mul, Int.sign_sign, Int.sign_natCast_of_ne_zero hpos.ne', Int.mul_one]
    have hsigns : i.sign = j.sign := by rw [← hsign i, h, hsign j]
    obtain rfl | hi := eq_or_ne i 0
    · rw [Int.sign_zero, eq_comm, Int.sign_eq_zero_iff_zero] at hsigns
      rw [hsigns]
    · have hj : j ≠ 0 := by
        rintro rfl
        exact hi (Int.sign_eq_zero_iff_zero.mp hsigns)
      have hposition : roundPosition i.natAbs 1 = roundPosition j.natAbs 1 := by
        rw [placeOf, placeOf, hsigns] at h
        exact_mod_cast mul_left_cancel₀ (mt Int.sign_eq_zero_iff_zero.mp hj) h
      have hnegative : i < 0 ↔ j < 0 := by
        rw [← Int.sign_neg_iff, hsigns, Int.sign_neg_iff]
      rw [ofInt, ofInt, if_neg hi, if_neg hj, hposition]
      simp only [hnegative]

/-- Integers are compared as numbers of the format in their own order, save for those that become one number. -/
theorem le_ofInt {i j : ℤ} : (ofInt i).le (ofInt j) = true ↔ i ≤ j ∨ ofInt i = ofInt j := by
  rw [le, rank?_ofInt, rank?_ofInt, decide_eq_true_iff, ofInt_eq_iff]
  constructor
  · intro h
    obtain hlt | hle := lt_or_ge j i
    · exact Or.inr (Int.le_antisymm h (placeOf_mono hlt.le))
    · exact Or.inl hle
  · rintro (h | h)
    · exact placeOf_mono h
    · exact h.le

theorem lt_ofInt {i j : ℤ} : (ofInt i).lt (ofInt j) = true ↔ i < j ∧ ofInt i ≠ ofInt j := by
  rw [lt, rank?_ofInt, rank?_ofInt, decide_eq_true_iff, ne_eq, ofInt_eq_iff]
  constructor
  · intro h
    exact ⟨lt_of_not_ge fun hle => absurd (placeOf_mono hle) (not_le.mpr h), h.ne⟩
  · intro h
    exact lt_of_le_of_ne (placeOf_mono h.1.le) h.2

/-! ## Exact integers -/

theorem toInt?_ofInt (i : ℤ) : (ofInt i).toInt? = none ∨ (ofInt i).toInt? = some (i.sign * nearest i.natAbs) := by
  obtain rfl | hi := eq_or_ne i 0
  · exact Or.inr (by decide +kernel)
  · rw [ofInt, if_neg hi, toInt?_roundPosition_one (by omega)]
    split
    · exact Or.inl rfl
    · obtain hneg | hpos := Int.lt_or_gt_of_ne hi
      · simp [hneg, Int.sign_eq_neg_one_of_neg hneg]
      · simp [hpos.not_gt, Int.sign_eq_one_of_pos hpos]

theorem toInt?_ofInt_of_lt {i : ℤ} (h : i.natAbs < 2 ^ 53) : (ofInt i).toInt? = some i := by
  obtain rfl | hi := eq_or_ne i 0
  · decide +kernel
  · have hpos : 0 < i.natAbs := by omega
    have hlog := log2_le_of_lt hpos h
    have hbound := (significand_bounds hpos).2
    rw [ofInt, if_neg hi, toInt?_roundPosition_one hpos, if_neg, nearest_of_lt h]
    · obtain hneg | hpos := Int.lt_or_gt_of_ne hi
      · rw [decide_eq_true hneg, if_pos rfl]
        exact congrArg some (by omega)
      · rw [decide_eq_false hpos.not_gt, if_neg Bool.false_ne_true]
        exact congrArg some (by omega)
    · simp only [binade, infinityPosition] at *
      omega

/-- Two integers that become one number are equal, or have both more than 53 places. -/
theorem eq_of_ofInt_eq {i j : ℤ} (h : ofInt i = ofInt j) (hi : i.natAbs < 2 ^ 53) : i = j := by
  have hread := toInt?_ofInt_of_lt hi
  rw [h] at hread
  obtain hlt | hge := Nat.lt_or_ge j.natAbs (2 ^ 53)
  · rw [toInt?_ofInt_of_lt hlt] at hread
    exact (Option.some.inj hread).symm
  · exfalso
    obtain hnone | hsome := toInt?_ofInt j
    · rw [hnone] at hread
      cases hread
    · have hnearest := pow_le_nearest (by decide) hge
      have heq : j.sign * nearest j.natAbs = i := Option.some.inj (hsome.symm.trans hread)
      have habs := congrArg Int.natAbs heq
      rw [Int.natAbs_mul, Int.natAbs_sign_of_ne_zero (by omega), Int.natAbs_natCast] at habs
      omega

/-! ## Reading integers -/

theorem ofDecimal_whole (negative : Bool) (m : ℕ) : ofDecimal negative m 0 = signed negative
    (if m = 0 then 0 else if 310 < (Nat.toDigits 10 m).length then infinityPosition else roundPosition m 1) := by
  have hsmall : ¬ (0 : ℤ) + (Nat.toDigits 10 m).length < -330 := by omega
  have hlarge : (310 : ℤ) < 0 + (Nat.toDigits 10 m).length ↔ 310 < (Nat.toDigits 10 m).length := by omega
  rw [ofDecimal]
  simp only [Int.toNat_zero, Int.neg_zero, Nat.pow_eq, Nat.pow_zero, Nat.mul_one, if_neg hsmall, hlarge]

theorem ofDecimal_natural (negative : Bool) {m : ℕ} (hm : m < 10 ^ 20) :
    ofDecimal negative m 0 = signed negative (if m = 0 then 0 else roundPosition m 1) := by
  have hlength : (Nat.toDigits 10 m).length ≤ 20 := (Nat.length_toDigits_le_iff (by decide) (by decide)).mpr hm
  rw [ofDecimal_whole, if_neg (show ¬ 310 < (Nat.toDigits 10 m).length by omega)]

/-- Zeros behind the point do not count. -/
theorem ofDecimal_zeros (negative : Bool) (m k : ℕ) :
    ofDecimal negative (m * 10 ^ k) (-(k : ℤ)) = ofDecimal negative m 0 := by
  obtain rfl | hm := Nat.eq_zero_or_pos m
  · rw [Nat.zero_mul, ofDecimal, ofDecimal, if_pos rfl, if_pos rfl]
  · have hpow : 0 < 10 ^ k := Nat.pow_pos (by decide)
    have hround := roundPosition_scale hm Nat.one_pos hpow
    rw [Nat.one_mul] at hround
    have hsize : -(k : ℤ) + (Nat.toDigits 10 (m * 10 ^ k)).length = 0 + (Nat.toDigits 10 m).length := by
      rw [toDigits_mul_pow hm, List.length_append, List.length_replicate]
      omega
    rw [ofDecimal, ofDecimal]
    simp only [hsize, Int.neg_neg, Int.toNat_natCast, Int.toNat_neg_natCast, Int.toNat_zero, Int.neg_zero, Nat.pow_eq,
      Nat.pow_zero, Nat.mul_one, hround, Nat.mul_eq_zero, hpow.ne', or_false]

/-- What a natural number is read as is an integer, the nearest one, if it is not too large. -/
theorem toInt?_ofDecimal (m : ℕ) : (ofDecimal false m 0).toInt? = some (nearest m : ℤ) ∨
    2 ^ 63 ≤ m ∧ (ofDecimal false m 0).toInt? = none := by
  obtain rfl | hm := Nat.eq_zero_or_pos m
  · exact Or.inl (by decide +kernel)
  rw [ofDecimal_whole, if_neg hm.ne']
  split
  · next hlong =>
    refine Or.inr ⟨?_, by rw [toInt?, if_pos (Nat.le_refl _)]⟩
    obtain ⟨l, hlength, hlow, -⟩ := pow_length_toDigits hm
    have hpow : 10 ^ 20 ≤ 10 ^ l := Nat.pow_le_pow_right (by decide) (by omega)
    omega
  · rw [toInt?_roundPosition_one hm]
    split
    · next hinfinite =>
      refine Or.inr ⟨Nat.le_of_not_lt fun hlt => ?_, rfl⟩
      have hlog : m.log2 < 63 := (Nat.log2_lt hm.ne').mpr hlt
      have hbound := (significand_bounds hm).2
      simp only [binade, infinityPosition] at *
      omega
    · exact Or.inl rfl

/-- The text of an integer is read as the number that the integer becomes, but for the sign of zero. -/
theorem read?_of_textOf {text : String} {n : ℤ} (h : IntegerRange.signed64.TextOf text.toList n) :
    ∃ x, read? text = some x ∧ x.rank? = (ofInt n).rank? := by
  have hsmall : ∀ {m : ℕ}, m ≤ 2 ^ 63 → m < 10 ^ 20 := fun hm => hm.trans_lt (by decide)
  rw [rank?_ofInt]
  generalize hcs : text.toList = cs at h
  have hrank : ∀ m : ℕ, (signed false (if m = 0 then 0 else roundPosition m 1)).rank? = some (placeOf m) := by
    intro m
    obtain rfl | hm := Nat.eq_zero_or_pos m
    · rfl
    · rw [if_neg hm.ne', placeOf_natCast hm]
      rfl
  cases h with
  | plain hne digits fits =>
    refine ⟨_, ?_, hrank _⟩
    rw [← ofDecimal_natural false (hsmall (fits.trans (by decide))), ← read?_digits digits hne, ← hcs, String.ofList_toList]
  | @plus ds hne digits fits =>
    refine ⟨_, ?_, hrank _⟩
    rw [← ofDecimal_natural false (hsmall (fits.trans (by decide))), read?, hcs]
    exact readUnsigned_digits false digits hne
  | @minus ds hne digits fits =>
    refine ⟨signed true (if ofDigits 0 ds = 0 then 0 else roundPosition (ofDigits 0 ds) 1), ?_, ?_⟩
    · rw [← ofDecimal_natural true (hsmall fits), read?, hcs]
      exact readUnsigned_digits true digits hne
    · rw [placeOf_neg, rank?, if_pos rfl]
      exact congrArg (fun x : Option ℤ => x.map fun i => -i) (hrank (ofDigits 0 ds))

end UriRouting.Numeric.Binary64
