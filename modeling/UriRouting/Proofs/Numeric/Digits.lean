import Mathlib.Algebra.GroupWithZero.Nat
import Mathlib.Data.List.Basic
import UriRouting.Numeric.Integer
/-!
Decimal digits of natural numbers.

A row of digits without zeros at its front is what is printed of the number it stands for, and what follows a row
is printed behind it: `toDigits_ofDigits`, `toDigits_ofDigits_from`.
-/

namespace UriRouting.Numeric

/-! ## Single digits -/

theorem digitValue_lt {c : Char} (h : isDigit c = true) : digitValue c < 10 := by
  simp only [isDigit, Bool.and_eq_true, decide_eq_true_eq] at h
  have hlow : '0'.toNat ≤ c.toNat := h.1
  have hhigh : c.toNat ≤ '9'.toNat := h.2
  simp only [digitValue]
  simp only [Char.reduceToNat] at *
  omega

theorem digitChar_digitValue {c : Char} (h : isDigit c = true) : (digitValue c).digitChar = c := by
  have hvalue := digitValue_lt h
  simp only [isDigit, Bool.and_eq_true, decide_eq_true_eq] at h
  have hlow : '0'.toNat ≤ c.toNat := h.1
  rw [← Char.toNat_inj, Nat.toNat_digitChar_of_lt_ten hvalue, digitValue]
  simp only [Char.reduceToNat] at *
  omega

theorem digitValue_eq_zero {c : Char} (h : isDigit c = true) : digitValue c = 0 ↔ c = '0' := by
  constructor
  · intro hzero
    rw [← digitChar_digitValue h, hzero]
    rfl
  · rintro rfl
    rfl

/-! ## Rows of digits -/

variable {cs : List Char}

theorem ofDigits_append (start : Nat) (front back : List Char) :
    ofDigits start (front ++ back) = ofDigits (ofDigits start front) back := List.foldl_append

theorem ofDigits_eq_add (start : Nat) (cs : List Char) : ofDigits start cs = 10 ^ cs.length * start + ofDigits 0 cs :=
  Nat.ofDigitChars_eq_ofDigitChars_zero

theorem ofDigits_zeros (start k : Nat) : ofDigits start (List.replicate k '0') = 10 ^ k * start :=
  Nat.ofDigitChars_replicate_zero

theorem ofDigits_toDigits (n : Nat) : ofDigits 0 (Nat.toDigits 10 n) = n := Nat.ofDigitChars_ten_toDigits

theorem ten_dvd_ofDigits (digits : ∀ c ∈ cs, isDigit c = true) (hne : cs ≠ []) :
    10 ∣ ofDigits 0 cs ↔ cs.getLast? = some '0' := by
  obtain ⟨front, c, rfl⟩ := (List.eq_nil_or_concat' cs).resolve_left hne
  have hc : isDigit c = true := digits c (by simp)
  have hlast : ofDigits 0 (front ++ [c]) = 10 * ofDigits 0 front + digitValue c := ofDigits_append 0 front [c]
  have hvalue := digitValue_lt hc
  rw [hlast, List.getLast?_concat, Option.some.injEq, ← digitValue_eq_zero hc]
  omega

/-! ## Printing -/

theorem isDigit_of_mem_toDigits {n : Nat} {c : Char} (h : c ∈ Nat.toDigits 10 n) : isDigit c = true :=
  Nat.isDigit_of_mem_toDigits (by decide) (by decide) h

theorem toDigits_digitValue {c : Char} (h : isDigit c = true) : Nat.toDigits 10 (digitValue c) = [c] := by
  rw [Nat.toDigits_of_lt_base (digitValue_lt h), digitChar_digitValue h]

/-- Digits behind a number are printed as they are. -/
theorem toDigits_ofDigits_from {start : Nat} (hstart : 0 < start) (digits : ∀ c ∈ cs, isDigit c = true) :
    Nat.toDigits 10 (ofDigits start cs) = Nat.toDigits 10 start ++ cs := by
  induction cs generalizing start with
  | nil => exact (List.append_nil _).symm
  | cons c cs ih =>
    obtain ⟨hc, hcs⟩ := List.forall_mem_cons.mp digits
    have hstep : Nat.toDigits 10 (10 * start + digitValue c) = Nat.toDigits 10 start ++ [c] := by
      rw [← Nat.toDigits_append_toDigits (by decide) hstart (digitValue_lt hc), toDigits_digitValue hc]
    rw [ofDigits, List.foldl_cons, ← ofDigits, ih (by omega) hcs, hstep, List.append_assoc]
    rfl

theorem toDigits_mul_pow {n : Nat} (hn : 0 < n) (k : Nat) :
    Nat.toDigits 10 (n * 10 ^ k) = Nat.toDigits 10 n ++ List.replicate k '0' := by
  have hzeros : ∀ c ∈ List.replicate k '0', isDigit c = true := by
    intro c hc
    rw [List.eq_of_mem_replicate hc]
    rfl
  rw [Nat.mul_comm, ← ofDigits_zeros, toDigits_ofDigits_from hn hzeros]

/-- No zero stands at the front of a row of digits, but when it is the only digit. -/
def NoZeroInFront (cs : List Char) : Prop := cs.head? = some '0' → cs = ['0']

theorem toDigits_ofDigits (digits : ∀ c ∈ cs, isDigit c = true) (hne : cs ≠ []) (hfront : NoZeroInFront cs) :
    Nat.toDigits 10 (ofDigits 0 cs) = cs := by
  obtain ⟨c, cs, rfl⟩ := List.exists_cons_of_ne_nil hne
  obtain ⟨hc, hcs⟩ := List.forall_mem_cons.mp digits
  have hcons : ofDigits 0 (c :: cs) = ofDigits (digitValue c) cs := by simp [ofDigits]
  by_cases hzero : c = '0'
  · subst hzero
    rw [hfront rfl]
    rfl
  · have hpos : 0 < digitValue c := Nat.pos_of_ne_zero (mt (digitValue_eq_zero hc).mp hzero)
    rw [hcons, toDigits_ofDigits_from hpos hcs, toDigits_digitValue hc, List.singleton_append]

theorem head?_toDigits {n : Nat} (hn : 0 < n) : (Nat.toDigits 10 n).head? ≠ some '0' := by
  induction n using Nat.strongRecOn with
  | ind n ih =>
    rcases Nat.lt_or_ge n 10 with hlt | hge
    · have hdigit := Nat.toNat_digitChar_of_lt_ten hlt
      rw [Nat.toDigits_of_lt_base hlt, List.head?_singleton, ne_eq, Option.some.injEq, ← Char.toNat_inj, hdigit]
      simp only [Char.reduceToNat]
      omega
    · rw [Nat.toDigits_of_base_le (by decide) hge, List.head?_append_of_ne_nil _ (by simp)]
      exact ih (n / 10) (by omega) (by omega)

theorem pow_length_toDigits {n : Nat} (hn : 0 < n) :
    ∃ l, (Nat.toDigits 10 n).length = l + 1 ∧ 10 ^ l ≤ n ∧ n < 10 ^ (l + 1) := by
  have hlength := Nat.length_toDigits_pos (b := 10) (n := n)
  refine ⟨(Nat.toDigits 10 n).length - 1, by omega, Nat.not_lt.mp fun hlt => ?_, ?_⟩
  · rcases Nat.eq_zero_or_pos ((Nat.toDigits 10 n).length - 1) with hzero | hpos
    · rw [hzero] at hlt
      omega
    · have hshort := (Nat.length_toDigits_le_iff (by decide) hpos).mpr hlt
      omega
  · exact (Nat.length_toDigits_le_iff (by decide) (by omega)).mp (by omega)

theorem noZeroInFront_toDigits (n : Nat) : NoZeroInFront (Nat.toDigits 10 n) := by
  intro hhead
  rcases Nat.eq_zero_or_pos n with rfl | hn
  · rfl
  · exact absurd hhead (head?_toDigits hn)

/-- A row of digits is zeros, and what is printed of the number it stands for. -/
theorem exists_zeros_toDigits (digits : ∀ c ∈ cs, isDigit c = true) (hpos : 0 < ofDigits 0 cs) :
    ∃ k, cs = List.replicate k '0' ++ Nat.toDigits 10 (ofDigits 0 cs) := by
  induction cs with
  | nil => cases hpos
  | cons c cs ih =>
    by_cases hzero : c = '0'
    · subst hzero
      obtain ⟨k, hcs⟩ := ih (List.forall_mem_cons.mp digits).2 hpos
      exact ⟨k + 1, congrArg (List.cons '0') hcs⟩
    · have hfront : NoZeroInFront (c :: cs) := fun hhead => absurd (Option.some.inj hhead) hzero
      exact ⟨0, (toDigits_ofDigits digits (List.cons_ne_nil c cs) hfront).symm⟩

end UriRouting.Numeric
