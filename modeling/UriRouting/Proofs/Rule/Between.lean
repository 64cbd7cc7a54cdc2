import UriRouting.Proofs.Numeric.Integers
import UriRouting.Rule.Factory
/-!
Ranges of integers.

A range compares floating-point numbers, so that its bounds and a value are rounded before they are compared. Between
integers the comparison is that of the integers, save for different ones that are rounded to one number:
`between_integers`. There are none of which one is below `2 ^ 53`.
-/

namespace UriRouting

open Numeric

/-- Whether a range with a flag, or without one, includes its bounds. -/
def inclusivity (flag? : Option Param) : Except ParamFault Bool := flag?.elim (.ok true) Rule.flagOf

theorem create_between (lo hi : Int) {flag? : Option Param} {inclusive : Bool} (hflag : inclusivity flag? = .ok inclusive) :
    RuleFactory.default.create "between" (.int lo :: .int hi :: flag?.toList)
      = .ok (.between (.ofInt lo) (.ofInt hi) inclusive) := by
  have hmake : ∀ params, RuleFactory.default.create "between" params
      = (Rule.ofRange params).mapError (.invalidParams "between") := fun _ => rfl
  rw [hmake]
  cases flag? with
  | none =>
    cases hflag
    rfl
  | some flag =>
    have hflag : Rule.flagOf flag = .ok inclusive := hflag
    rw [Option.toList_some, Rule.ofRange, hflag]
    rfl

/-! ## Values -/

theorem le_congr {x y : Binary64} (h : x.rank? = y.rank?) (z : Binary64) : z.le x = z.le y ∧ x.le z = y.le z := by
  rw [Binary64.le, Binary64.le, Binary64.le, Binary64.le, h]
  exact ⟨rfl, rfl⟩

theorem lt_congr {x y : Binary64} (h : x.rank? = y.rank?) (z : Binary64) : z.lt x = z.lt y ∧ x.lt z = y.lt z := by
  rw [Binary64.lt, Binary64.lt, Binary64.lt, Binary64.lt, h]
  exact ⟨rfl, rfl⟩

/-- The text of an integer is accepted as the integer would be. -/
theorem accepts_between {low high : Binary64} {inclusive : Bool} {text : String} {n : Int}
    (htext : IntegerRange.signed64.read? text = some n) : (Rule.between low high inclusive).accepts text =
      if inclusive then low.le (.ofInt n) && (Binary64.ofInt n).le high
      else low.lt (.ofInt n) && (Binary64.ofInt n).lt high := by
  obtain ⟨x, hx, hrank⟩ := Binary64.read?_of_textOf (IntegerRange.textOf_of_read? htext)
  simp only [Rule.accepts, hx]
  rw [(le_congr hrank low).1, (le_congr hrank high).2, (lt_congr hrank low).1, (lt_congr hrank high).2]

/-! ## Ranges -/

/-- An integer is within bounds, which are included or not. -/
def Within (inclusive : Bool) (lo hi n : Int) : Prop := if inclusive then lo ≤ n ∧ n ≤ hi else lo < n ∧ n < hi

/-- An integer is within bounds as numbers of the format are, some of which stand for several integers. -/
def WithinRounded (inclusive : Bool) (lo hi n : Int) : Prop :=
  if inclusive then
    (lo ≤ n ∨ Binary64.ofInt lo = Binary64.ofInt n) ∧ (n ≤ hi ∨ Binary64.ofInt n = Binary64.ofInt hi)
  else (lo < n ∧ Binary64.ofInt lo ≠ Binary64.ofInt n) ∧ (n < hi ∧ Binary64.ofInt n ≠ Binary64.ofInt hi)

theorem withinRounded_iff {inclusive : Bool} {lo hi n : Int} (hlo : Binary64.ofInt lo = Binary64.ofInt n → lo = n)
    (hhi : Binary64.ofInt n = Binary64.ofInt hi → n = hi) :
    WithinRounded inclusive lo hi n ↔ Within inclusive lo hi n := by
  unfold WithinRounded Within
  split
  · rw [or_iff_left_of_imp fun h => (hlo h).le, or_iff_left_of_imp fun h => (hhi h).le]
  · have hlow : lo < n → Binary64.ofInt lo ≠ Binary64.ofInt n := fun h heq => h.ne (hlo heq)
    have hhigh : n < hi → Binary64.ofInt n ≠ Binary64.ofInt hi := fun h heq => h.ne (hhi heq)
    rw [and_iff_left_of_imp hlow, and_iff_left_of_imp hhigh]

/-- A range of integers accepts the text of an integer that is within its bounds when all three are rounded. That is
being within them where the integer, or both bounds, are below `2 ^ 53`. -/
theorem between_integers {lo hi n : Int} {flag? : Option Param} {inclusive : Bool} {text : String}
    (hflag : inclusivity flag? = .ok inclusive) (htext : IntegerRange.signed64.read? text = some n) :
    ∃ rule, RuleFactory.default.create "between" (.int lo :: .int hi :: flag?.toList) = .ok rule ∧
      (rule.accepts text = true ↔ WithinRounded inclusive lo hi n) ∧
      (n.natAbs < 2 ^ 53 ∨ lo.natAbs < 2 ^ 53 ∧ hi.natAbs < 2 ^ 53 →
        (rule.accepts text = true ↔ Within inclusive lo hi n)) := by
  have haccepts : (Rule.between (.ofInt lo) (.ofInt hi) inclusive).accepts text = true ↔
      WithinRounded inclusive lo hi n := by
    rw [accepts_between htext, WithinRounded]
    split
    · rw [Bool.and_eq_true, Binary64.le_ofInt, Binary64.le_ofInt]
    · rw [Bool.and_eq_true, Binary64.lt_ofInt, Binary64.lt_ofInt]
  refine ⟨_, create_between lo hi hflag, haccepts, fun hsmall => haccepts.trans ?_⟩
  obtain hn | ⟨hlo, hhi⟩ := hsmall
  · exact withinRounded_iff (fun h => (Binary64.eq_of_ofInt_eq h.symm hn).symm) fun h => Binary64.eq_of_ofInt_eq h hn
  · exact withinRounded_iff (fun h => Binary64.eq_of_ofInt_eq h hlo) fun h => (Binary64.eq_of_ofInt_eq h.symm hhi).symm

/-- The lower bound is rounded down, and the upper one up. -/
theorem between_integers_rounded : ∃ rule, RuleFactory.default.create "between"
      [.int 9007199254740993, .int 9223372036854775807, .int 0] = .ok rule ∧
    rule.accepts "+9007199254740994" = true := by
  obtain ⟨rule, hrule, haccepts, -⟩ := @between_integers 9007199254740993 9223372036854775807 9007199254740994
    (some (.int 0)) false "+9007199254740994" rfl (by decide +kernel)
  refine ⟨rule, hrule, haccepts.mpr ?_⟩
  rw [WithinRounded, if_neg Bool.false_ne_true]
  decide +kernel

/-- Integers that are rounded to one number are not told apart: bounds that are included take in an integer below them,
and bounds that are not leave out one between them. -/
theorem between_astray :
    (IntegerRange.signed64.read? "9007199254740992" = some 9007199254740992 ∧
      ∃ rule, RuleFactory.default.create "between" [.int 9007199254740993, .int 9007199254740993] = .ok rule ∧
        rule.accepts "9007199254740992" = true ∧ ¬ Within true 9007199254740993 9007199254740993 9007199254740992) ∧
    (IntegerRange.signed64.read? "9007199254740993" = some 9007199254740993 ∧
      ∃ rule, RuleFactory.default.create "between"
          [.int 9007199254740992, .int 9007199254740994, .int 0] = .ok rule ∧
        rule.accepts "9007199254740993" = false ∧ Within false 9007199254740992 9007199254740994 9007199254740993) := by
  refine ⟨⟨by decide +kernel, _, rfl, by decide +kernel, ?_⟩, by decide +kernel, _, rfl, by decide +kernel, ?_⟩
  · rw [Within, if_pos rfl]
    decide
  · rw [Within, if_neg Bool.false_ne_true]
    decide

end UriRouting
