import UriRouting.Numeric.Binary64.Reading
import UriRouting.Proofs.Numeric.Shortest
/-!
Numbers read and printed.

No number is printed with a zero that its value does not need. A decimal of at most fifteen digits without such
zeros is printed as it was read.
-/

namespace UriRouting.Numeric

/-! ## Needless zeros -/

/-- No zero stands in front of another digit, and none at the end behind a point. -/
def NoNeedlessZeros (cs : List Char) : Prop :=
  (∀ c rest, cs = '0' :: c :: rest → c = '.') ∧ ('.' ∈ cs → cs.getLast? ≠ some '0')

theorem NoNeedlessZeros.of_head {cs : List Char} (hhead : cs.head? ≠ some '0')
    (hlast : '.' ∈ cs → cs.getLast? ≠ some '0') : NoNeedlessZeros cs := by
  refine ⟨fun c rest hcs => ?_, hlast⟩
  rw [hcs] at hhead
  exact absurd rfl hhead

theorem not_mem_toDigits (n : Nat) : '.' ∉ Nat.toDigits 10 n := fun h => by cases isDigit_of_mem_toDigits h

theorem noNeedlessZeros_toDigits (n : Nat) : NoNeedlessZeros (Nat.toDigits 10 n) := by
  refine ⟨fun c rest hcs => ?_, fun h => absurd h (not_mem_toDigits n)⟩
  have hfront := noZeroInFront_toDigits n
  rw [hcs] at hfront
  cases hfront rfl

theorem getLast?_toDigits {d : Nat} (h : ¬ 10 ∣ d) : (Nat.toDigits 10 d).getLast? ≠ some '0' := by
  rw [← ofDigits_toDigits d, ten_dvd_ofDigits (fun _ => isDigit_of_mem_toDigits) Nat.toDigits_ne_nil] at h
  exact h

namespace Binary64

theorem noNeedlessZeros_positional {d : Nat} (hd : 0 < d) (h : ¬ 10 ∣ d) (p : ℤ) :
    NoNeedlessZeros (positional (Nat.toDigits 10 d) p) := by
  have hne : Nat.toDigits 10 d ≠ [] := Nat.toDigits_ne_nil
  have hhead := head?_toDigits hd
  have hlast := getLast?_toDigits h
  unfold positional
  dsimp only
  split
  · refine .of_head ?_ fun hpoint => ?_
    · rwa [List.head?_append_of_ne_nil _ hne]
    · rcases List.mem_append.mp hpoint with hpoint | hpoint
      · exact absurd hpoint (not_mem_toDigits d)
      · cases List.eq_of_mem_replicate hpoint
  · split
    · next hp hwhole =>
      set front := (Nat.toDigits 10 d).take (p + (Nat.toDigits 10 d).length).toNat with hfront
      set back := (Nat.toDigits 10 d).drop (p + (Nat.toDigits 10 d).length).toNat with hback
      have hsplit : front ++ back = Nat.toDigits 10 d := List.take_append_drop _ _
      have hfront_ne : front ≠ [] := by
        rw [hfront, ne_eq, List.take_eq_nil_iff]
        rintro (hzero | hnil)
        · omega
        · exact hne hnil
      have hback_ne : back ≠ [] := by
        rw [hback, ne_eq, List.drop_eq_nil_iff]
        omega
      rw [← hsplit, List.head?_append_of_ne_nil _ hfront_ne] at hhead
      rw [← hsplit, List.getLast?_append_of_ne_nil _ hback_ne] at hlast
      refine .of_head ?_ fun _ => ?_
      · rwa [List.head?_append_of_ne_nil _ hfront_ne]
      · rwa [← List.singleton_append, ← List.append_assoc, List.getLast?_append_of_ne_nil _ hback_ne]
    · refine ⟨fun c rest hcs => (List.cons.inj (List.cons.inj hcs).2).1.symm, fun _ => ?_⟩
      rwa [List.getLast?_append_of_ne_nil _ hne]

theorem noNeedlessZeros_plainText (position : Nat) : NoNeedlessZeros (signed false position).plainText.toList := by
  have hword : ∀ word : String, word = "inf" ∨ word = "0" → NoNeedlessZeros ("" ++ word).toList := by
    rintro word (rfl | rfl)
    · exact .of_head (by decide) (by decide)
    · exact noNeedlessZeros_toDigits 0
  unfold plainText
  dsimp only
  split
  · exact hword _ (Or.inl rfl)
  · split
    · exact hword _ (Or.inr rfl)
    · next hpos =>
      rw [String.toList_append, String.toList_ofList]
      rcases shortest_cases (Nat.pos_of_ne_zero hpos) with hzero | ⟨d, k, hshortest, hd, hdigits⟩
      · rw [hzero]
        exact noNeedlessZeros_toDigits 0
      · rw [hshortest]
        exact noNeedlessZeros_positional hd hdigits k

theorem positional_natCast (digits : List Char) (j : ℕ) :
    positional digits j = digits ++ List.replicate j '0' := by
  unfold positional
  dsimp only
  rw [if_pos (Int.natCast_nonneg j), Int.toNat_natCast]

/-- What is printed of a number with digits behind the point. -/
theorem positional_fraction {whole cs : List Char} (hwhole : ∀ c ∈ whole, isDigit c = true) (hwhole_ne : whole ≠ [])
    (hcs : ∀ c ∈ cs, isDigit c = true) (hcs_ne : cs ≠ []) (hfront : NoZeroInFront whole)
    (hpos : 0 < ofDigits 0 (whole ++ cs)) :
    positional (Nat.toDigits 10 (ofDigits 0 (whole ++ cs))) (-(cs.length : ℤ)) = whole ++ '.' :: cs := by
  have hplaces : 0 < cs.length := List.length_pos_iff.mpr hcs_ne
  unfold positional
  dsimp only
  rw [if_neg (by omega)]
  by_cases hzero : whole.head? = some '0'
  · obtain rfl := hfront hzero
    have hvalue : ofDigits 0 (['0'] ++ cs) = ofDigits 0 cs := rfl
    rw [hvalue] at hpos ⊢
    obtain ⟨k, hk⟩ := exists_zeros_toDigits hcs hpos
    have hlength := congrArg List.length hk
    rw [List.length_append, List.length_replicate] at hlength
    have hmissing : (-(-(cs.length : ℤ) + (Nat.toDigits 10 (ofDigits 0 cs)).length)).toNat = k := by omega
    rw [if_neg (by omega), hmissing]
    exact congrArg (fun back => '0' :: '.' :: back) hk.symm
  · have hwhole_length : 0 < whole.length := List.length_pos_iff.mpr hwhole_ne
    have hdigits : Nat.toDigits 10 (ofDigits 0 (whole ++ cs)) = whole ++ cs := by
      refine toDigits_ofDigits (List.forall_mem_append.mpr ⟨hwhole, hcs⟩) (by simp [hwhole_ne]) fun hhead => ?_
      rw [List.head?_append_of_ne_nil _ hwhole_ne] at hhead
      exact absurd hhead hzero
    have hpoint : (-(cs.length : ℤ) + (whole ++ cs).length) = whole.length := by
      rw [List.length_append]
      omega
    rw [hdigits, hpoint, if_pos (by omega), Int.toNat_natCast, List.take_left, List.drop_left]

/-! ## Reading -/

/-- A decimal within the range is rounded as a quotient. -/
theorem ofDecimal_eq {c : ℕ} {e : ℤ} (hc : 0 < c) (hlow : (10 : ℚ) ^ (-307 : ℤ) ≤ c * 10 ^ e)
    (hhigh : (c * 10 ^ e : ℚ) ≤ 10 ^ (307 : ℤ)) :
    ofDecimal false c e = signed false (roundPosition (c * Nat.pow 10 e.toNat) (Nat.pow 10 (-e).toNat)) := by
  obtain ⟨l, hlength, hbelow, habove⟩ := pow_length_toDigits hc
  have hpow : (0 : ℚ) < 10 ^ e := by positivity
  have hbelow' : (10 : ℚ) ^ (l + e) ≤ 10 ^ (307 : ℤ) := by
    refine le_trans ?_ hhigh
    rw [zpow_add₀ (by norm_num), zpow_natCast]
    exact mul_le_mul_of_nonneg_right (by exact_mod_cast hbelow) hpow.le
  have habove' : (10 : ℚ) ^ (-307 : ℤ) < 10 ^ ((l + 1 : ℕ) + e) := by
    refine lt_of_le_of_lt hlow ?_
    rw [zpow_add₀ (by norm_num), zpow_natCast]
    exact mul_lt_mul_of_pos_right (by exact_mod_cast habove) hpow
  rw [zpow_le_zpow_iff_right₀ (by norm_num)] at hbelow'
  rw [zpow_lt_zpow_iff_right₀ (by norm_num)] at habove'
  rw [ofDecimal, hlength, if_neg (by omega), if_neg (by omega), if_neg (by omega)]

theorem decimal_bounds {x : ℚ} (hlow : (10 : ℚ) ^ (-307 : ℤ) ≤ x) (hhigh : x ≤ 10 ^ (307 : ℤ)) :
    (2 : ℚ) ^ (-1022 : ℤ) ≤ x ∧ x < 2 ^ (1023 : ℤ) := by
  have hpowers : (10 : ℚ) ^ 307 ≤ 2 ^ 1022 := by
    have hpowers : 10 ^ 307 ≤ 2 ^ 1022 := by decide +kernel
    exact_mod_cast hpowers
  rw [zpow_neg, zpow_ofNat] at hlow
  rw [zpow_ofNat] at hhigh
  rw [zpow_neg, zpow_ofNat, zpow_ofNat]
  refine ⟨(inv_anti₀ (by positivity) hpowers).trans hlow, (hhigh.trans hpowers).trans_lt ?_⟩
  exact pow_lt_pow_right₀ one_lt_two (by decide)

theorem plainText_of_shortest {position : ℕ} {digits : List Char} {p : ℤ} (hpos : 0 < position)
    (hfinite : position < infinityPosition) (h : shortest position = (digits, p)) :
    (signed false position).plainText = String.ofList (positional digits p) := by
  unfold plainText
  dsimp only
  rw [if_neg (Nat.not_le_of_gt hfinite), if_neg hpos.ne', h]
  exact String.empty_append

/-- A decimal of at most fifteen digits is printed as it is, and an integer only without places behind the point. -/
theorem plainText_ofDecimal {c m j : ℕ} {e : ℤ} (hc : c = m * 10 ^ j) (hdigits : ¬ 10 ∣ m) (hfew : m < 10 ^ 15)
    (hlow : (10 : ℚ) ^ (-307 : ℤ) ≤ c * 10 ^ e) (hhigh : (c * 10 ^ e : ℚ) ≤ 10 ^ (307 : ℤ)) :
    (ofDecimal false c e).plainText = String.ofList (positional (Nat.toDigits 10 m) (j + e)) ∧
      (j + e < 0 → (ofDecimal false c e).toInt? = none) := by
  have hm : 0 < m := Nat.pos_of_ne_zero fun hzero => hdigits (hzero ▸ Nat.dvd_zero 10)
  have hpos : 0 < c := hc ▸ Nat.mul_pos hm (Nat.pow_pos (by decide))
  have hnum : 0 < c * Nat.pow 10 e.toNat := Nat.mul_pos hpos (Nat.pow_pos (by decide))
  have hden : 0 < Nat.pow 10 (-e).toNat := Nat.pow_pos (by decide)
  have hquotient : ((c * Nat.pow 10 e.toNat : ℕ) : ℚ) / (Nat.pow 10 (-e).toNat : ℕ) = c * 10 ^ e := by
    rw [← pow_toNat_div 10 e, ← mul_div_assoc]
    push_cast [Nat.pow_eq]
    rfl
  have hdecimal : (c * 10 ^ e : ℚ) = m * 10 ^ (j + e) := by
    rw [hc, zpow_add₀ (by norm_num), zpow_natCast]
    push_cast
    ring
  obtain ⟨hlow', hhigh'⟩ := decimal_bounds hlow hhigh
  rw [← hquotient] at hlow' hhigh' hdecimal
  obtain ⟨hposition, hfinite, -⟩ := roundPosition_has hnum hden hlow' hhigh'
  rw [ofDecimal_eq hpos hlow hhigh]
  refine ⟨?_, toInt?_roundPosition hnum hden hlow' hhigh' hdecimal hdigits hfew⟩
  exact plainText_of_shortest hposition hfinite (shortest_roundPosition hnum hden hlow' hhigh' hdecimal hdigits hfew)

end Binary64

end UriRouting.Numeric
