import UriRouting.Proofs.Numeric.Integers
import UriRouting.Proofs.Template.Numerals
/-!
Whole numbers with a point.

A number with zeros behind its point is read as a floating-point number and so rounded, while the same number without
a point is an integer as long as it fits one. The two are the same exactly where the number does not fit an integer, or
has so few places that nothing is rounded: `number?_point`.
-/

namespace UriRouting

open Numeric

def digitsToken (ds : List Char) : Token := ⟨.number, String.ofList ds⟩

/-- The token of digits with a point and zeros behind them. -/
def pointToken (ds : List Char) (zeros : Nat) : Token :=
  ⟨.number, String.ofList (ds ++ '.' :: List.replicate zeros '0')⟩

section

variable {ds : List Char} (hds : IsDigits ds)

include hds

theorem number?_digits : (digitsToken ds).number? = some
    (if ofDigits 0 ds < 2 ^ 63 then .int (ofDigits 0 ds) else .float (.ofDecimal false (ofDigits 0 ds) 0)) := by
  have hvalue := Numeral.number?_token ⟨ds, none, hds, fun _ h => nomatch h⟩
  simp only [Numeral.value, Numeral.binary64, Numeral.coefficient, Numeral.places, Option.getD_none, List.append_nil,
    List.length_nil, Int.natCast_zero, Int.neg_zero] at hvalue
  exact hvalue

theorem number?_pointToken (zeros : Nat) : (pointToken ds (zeros + 1)).number? = some
    (if Binary64.nearest (ofDigits 0 ds) < 2 ^ 63 then .int (Binary64.nearest (ofDigits 0 ds))
      else .float (.ofDecimal false (ofDigits 0 ds) 0)) := by
  have hzeros : IsDigits (List.replicate (zeros + 1) '0') := by
    refine ⟨by simp, fun c hc => ?_⟩
    rw [List.eq_of_mem_replicate hc]
    rfl
  have hvalue := Numeral.number?_token ⟨ds, some _, hds, fun cs hcs => Option.some.inj hcs ▸ hzeros⟩
  have hcoefficient : ofDigits 0 (ds ++ List.replicate (zeros + 1) '0') = ofDigits 0 ds * 10 ^ (zeros + 1) := by
    rw [ofDigits_append, ofDigits_zeros, Nat.mul_comm]
  simp only [Numeral.value, Numeral.binary64, Numeral.coefficient, Numeral.places, Option.getD_some, hcoefficient,
    List.length_replicate, Binary64.ofDecimal_zeros] at hvalue
  refine hvalue.trans (congrArg some ?_)
  obtain hsome | ⟨hlarge, hnone⟩ := Binary64.toInt?_ofDecimal (ofDigits 0 ds)
  · rw [hsome]
    rfl
  · have hnearest := Binary64.pow_le_nearest (by decide) hlarge
    rw [hnone, if_neg (Nat.not_lt.mpr hnearest)]

end

/-- With zeros behind a point a number is rounded, and is an integer if that leaves it below `2 ^ 63`. It is the same as
without a point exactly if it is `2 ^ 63` at least or has no more than 53 places. -/
theorem number?_point {ds : List Char} (hds : IsDigits ds) (zeros : Nat) :
    (pointToken ds (zeros + 1)).number? = some
      (if Binary64.nearest (ofDigits 0 ds) < 2 ^ 63 then .int (Binary64.nearest (ofDigits 0 ds))
        else .float (.ofDecimal false (ofDigits 0 ds) 0)) ∧
    ((pointToken ds (zeros + 1)).number? = (digitsToken ds).number? ↔
      2 ^ 63 ≤ ofDigits 0 ds ∨ Binary64.HasFewPlaces (ofDigits 0 ds)) ∧
    (ofDigits 0 ds < 2 ^ 53 → (pointToken ds (zeros + 1)).number? = some (.int (ofDigits 0 ds))) := by
  have hpoint := number?_pointToken hds zeros
  refine ⟨hpoint, ?_, fun hsmall => ?_⟩
  · rw [hpoint, number?_digits hds, Option.some.injEq, ← Binary64.nearest_eq_iff]
    obtain hlt | hge := Nat.lt_or_ge (ofDigits 0 ds) (2 ^ 63)
    · rw [if_pos hlt, or_iff_right (Nat.not_le.mpr hlt)]
      constructor
      · intro heq
        split at heq
        · exact Int.ofNat.inj (Param.int.inj heq)
        · cases heq
      · intro heq
        rw [heq, if_pos hlt]
    · have hnearest := Binary64.pow_le_nearest (by decide) hge
      rw [if_neg (Nat.not_lt.mpr hge), if_neg (Nat.not_lt.mpr hnearest)]
      exact ⟨fun _ => Or.inl hge, fun _ => rfl⟩
  · rw [hpoint, Binary64.nearest_of_lt hsmall, if_pos (by omega)]

/-- A point does not change the first number above all integers of 64 bits, nor a short one. -/
theorem number?_point_large :
    (pointToken "9223372036854775808".toList 1).number? = (digitsToken "9223372036854775808".toList).number? ∧
    (pointToken "922337".toList 3).number? = some (.int 922337) := by
  have hdigits : ∀ {ds : List Char}, ds ≠ [] → ds.all isDigit = true → IsDigits ds := fun hne hall =>
    ⟨hne, List.all_eq_true.mp hall⟩
  exact ⟨(number?_point (hdigits (by decide +kernel) (by decide +kernel)) 0).2.1.mpr (Or.inl (by decide +kernel)),
    (number?_point (hdigits (by decide +kernel) (by decide +kernel)) 2).2.2 (by decide +kernel)⟩

/-- The first integer with more than 53 places is rounded, and the last one of 64 bits is no integer any more. -/
theorem number?_point_astray :
    (digitsToken "9007199254740993".toList).number? = some (.int 9007199254740993) ∧
    (pointToken "9007199254740993".toList 1).number? = some (.int 9007199254740992) ∧
    (digitsToken "9223372036854775807".toList).number? = some (.int 9223372036854775807) ∧
    (pointToken "9223372036854775807".toList 1).number? = some (.float (.signed false 0x43E0000000000000)) := by
  decide +kernel

end UriRouting
