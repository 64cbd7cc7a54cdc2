import Mathlib.Data.List.TakeWhile
import UriRouting.Numeric.Binary64.Reading
import UriRouting.Proofs.Numeric.Digits
/-!
Numbers read from rows of digits.

A row of digits is an integer when it is within the range, and a floating-point number in any case; with a point in
it, it is a floating-point number.
-/

namespace UriRouting.Numeric

variable {cs : List Char}

theorem not_sign_of_digit {c : Char} (h : isDigit c = true) : c ≠ '+' ∧ c ≠ '-' := by
  constructor <;> rintro rfl <;> cases h

/-! ## Integers -/

theorem readMagnitude_digits (digits : ∀ c ∈ cs, isDigit c = true) {limit n : Nat} (hn : n ≤ limit)
    (overflow : IntegerFault) : readMagnitude limit overflow n cs
      = if ofDigits n cs ≤ limit then .ok (ofDigits n cs) else .error overflow := by
  induction cs generalizing n with
  | nil => exact (if_pos hn).symm
  | cons c cs ih =>
    obtain ⟨hc, hcs⟩ := List.forall_mem_cons.mp digits
    have hstep : ofDigits n (c :: cs) = ofDigits (10 * n + digitValue c) cs := rfl
    rw [readMagnitude, hc, hstep]
    simp only [Bool.not_true, Bool.false_eq_true, if_false]
    split
    · next hover =>
      have hgrows : 10 * n + digitValue c ≤ ofDigits (10 * n + digitValue c) cs := by
        rw [ofDigits_eq_add]
        exact Nat.le_add_right_of_le (Nat.le_mul_of_pos_left _ (Nat.pow_pos (by decide)))
      rw [if_neg (by omega)]
    · next hfits => exact ih hcs (by omega)

/-- Only digits are read to their end, and their number is within the limit. -/
theorem of_readMagnitude {limit n m : Nat} {overflow : IntegerFault} (hn : n ≤ limit)
    (h : readMagnitude limit overflow n cs = .ok m) :
    (∀ c ∈ cs, isDigit c = true) ∧ ofDigits n cs = m ∧ m ≤ limit := by
  induction cs generalizing n with
  | nil =>
    cases h
    exact ⟨fun _ hc => (List.not_mem_nil hc).elim, rfl, hn⟩
  | cons c cs ih =>
    rw [readMagnitude] at h
    split at h
    · cases h
    · next hc =>
      split at h
      · cases h
      · next hfits =>
        obtain ⟨hcs, hvalue⟩ := ih (Nat.not_lt.mp hfits) h
        exact ⟨List.forall_mem_cons.mpr ⟨by simpa using hc, hcs⟩, hvalue⟩

namespace IntegerRange

/-- The texts of an integer: digits, with a sign or none in front. -/
inductive TextOf (r : IntegerRange) : List Char → Int → Prop
  | plain {ds : List Char} (hne : ds ≠ []) (digits : ∀ c ∈ ds, isDigit c = true) (fits : ofDigits 0 ds ≤ r.highest) :
    TextOf r ds (ofDigits 0 ds)
  | plus {ds : List Char} (hne : ds ≠ []) (digits : ∀ c ∈ ds, isDigit c = true) (fits : ofDigits 0 ds ≤ r.highest) :
    TextOf r ('+' :: ds) (ofDigits 0 ds)
  | minus {ds : List Char} (hne : ds ≠ []) (digits : ∀ c ∈ ds, isDigit c = true) (fits : ofDigits 0 ds ≤ r.below) :
    TextOf r ('-' :: ds) (-(ofDigits 0 ds : Int))

theorem textOf_of_read? {r : IntegerRange} {text : String} {n : Int} (h : r.read? text = some n) :
    r.TextOf text.toList n := by
  have hok : r.read text = .ok n := by
    rw [read?] at h
    cases hread : r.read text with
    | error fault =>
      rw [hread] at h
      cases h
    | ok i =>
      rw [hread] at h
      exact congrArg Except.ok (Option.some.inj h)
  have hmagnitude : ∀ {limit : Nat} {overflow : IntegerFault} {ds : List Char} {f : Nat → Int},
      (readMagnitude limit overflow 0 ds).map f = .ok n →
        (∀ c ∈ ds, isDigit c = true) ∧ f (ofDigits 0 ds) = n ∧ ofDigits 0 ds ≤ limit := by
    intro limit overflow ds f hmap
    cases hread : readMagnitude limit overflow 0 ds with
    | error fault =>
      rw [hread] at hmap
      cases hmap
    | ok m =>
      rw [hread] at hmap
      obtain ⟨digits, rfl, hfits⟩ := of_readMagnitude (Nat.zero_le limit) hread
      exact ⟨digits, Except.ok.inj hmap, hfits⟩
  rw [read] at hok
  split at hok
  · cases hok
  · cases hok
  · cases hok
  · next ds hne htext =>
    obtain ⟨digits, rfl, hfits⟩ := hmagnitude hok
    rw [htext]
    exact .plus hne digits hfits
  · next ds hne htext =>
    split at hok
    · cases hok
    · have hnegated : ∀ x : Except IntegerFault Nat, (do let m ← x; pure (m : Int) : Except IntegerFault Int).map
          (fun m => -m) = x.map fun m : Nat => -(m : Int) := fun x => by cases x <;> rfl
      rw [hnegated] at hok
      obtain ⟨digits, rfl, hfits⟩ := hmagnitude hok
      rw [htext]
      exact .minus hne digits hfits
  · next hne _ _ _ _ =>
    obtain ⟨digits, rfl, hfits⟩ := hmagnitude hok
    exact .plain hne digits hfits

theorem read?_digits (r : IntegerRange) (digits : ∀ c ∈ cs, isDigit c = true) (hne : cs ≠ []) :
    r.read? (String.ofList cs) = if ofDigits 0 cs ≤ r.highest then some (ofDigits 0 cs : Int) else none := by
  obtain ⟨c, rest, rfl⟩ := List.exists_cons_of_ne_nil hne
  obtain ⟨hplus, hminus⟩ := not_sign_of_digit (digits c List.mem_cons_self)
  have hread : r.read (String.ofList (c :: rest)) = (readMagnitude r.highest .tooLarge 0 (c :: rest)).map Int.ofNat := by
    rw [read, String.toList_ofList]
    split
    · next h => cases h
    · next h => exact absurd (List.cons.inj h).1 hplus
    · next h => exact absurd (List.cons.inj h).1 hminus
    · next h => exact absurd (List.cons.inj h).1 hplus
    · next h => exact absurd (List.cons.inj h).1 hminus
    · rfl
  rw [read?, hread, readMagnitude_digits digits (Nat.zero_le _)]
  split <;> rfl

end IntegerRange

/-! ## Floating-point numbers -/

namespace Binary64

theorem read?_unsigned {c : Char} (h : isDigit c = true) (rest : List Char) :
    read? (String.ofList (c :: rest)) = (readDecimal false (c :: rest)).or (readName false (c :: rest)) := by
  obtain ⟨hplus, hminus⟩ := not_sign_of_digit h
  rw [read?, String.toList_ofList]
  split
  · next h => exact absurd (List.cons.inj h).1 hminus
  · next h => exact absurd (List.cons.inj h).1 hplus
  · rfl

theorem readUnsigned_digits (negative : Bool) (digits : ∀ c ∈ cs, isDigit c = true) (hne : cs ≠ []) :
    readUnsigned negative cs = some (ofDecimal negative (ofDigits 0 cs) 0) := by
  have htake : cs.takeWhile isDigit = cs := List.takeWhile_eq_self_iff.mpr digits
  have hdrop : cs.dropWhile isDigit = [] := List.dropWhile_eq_nil_iff.mpr digits
  have hdecimal : readDecimal negative cs = some (ofDecimal negative (ofDigits 0 cs) 0) := by
    simp [readDecimal, htake, hdrop, hne, readScale]
  rw [readUnsigned, hdecimal]
  rfl

theorem read?_digits (digits : ∀ c ∈ cs, isDigit c = true) (hne : cs ≠ []) :
    read? (String.ofList cs) = some (ofDecimal false (ofDigits 0 cs) 0) := by
  obtain ⟨c, rest, rfl⟩ := List.exists_cons_of_ne_nil hne
  rw [read?_unsigned (digits c List.mem_cons_self)]
  exact readUnsigned_digits false digits hne

theorem read?_fraction {whole : List Char} (hwhole : ∀ c ∈ whole, isDigit c = true) (hne : whole ≠ [])
    (digits : ∀ c ∈ cs, isDigit c = true) : read? (String.ofList (whole ++ '.' :: cs))
      = some (ofDecimal false (ofDigits 0 (whole ++ cs)) (-(cs.length : Int))) := by
  have htake : (whole ++ '.' :: cs).takeWhile isDigit = whole := by
    rw [List.takeWhile_append_of_pos hwhole]
    exact List.append_nil _
  have hdrop : (whole ++ '.' :: cs).dropWhile isDigit = '.' :: cs := by
    rw [List.dropWhile_append_of_pos hwhole]
    rfl
  have htake' : cs.takeWhile isDigit = cs := List.takeWhile_eq_self_iff.mpr digits
  have hdrop' : cs.dropWhile isDigit = [] := List.dropWhile_eq_nil_iff.mpr digits
  have hdecimal : readDecimal false (whole ++ '.' :: cs)
      = some (ofDecimal false (ofDigits 0 (whole ++ cs)) (-(cs.length : Int))) := by
    simp [readDecimal, htake, hdrop, htake', hdrop', hne, readScale]
  obtain ⟨c, rest, rfl⟩ := List.exists_cons_of_ne_nil hne
  rw [List.cons_append] at hdecimal ⊢
  rw [read?_unsigned (hwhole c List.mem_cons_self), hdecimal]
  rfl

end Binary64

end UriRouting.Numeric
