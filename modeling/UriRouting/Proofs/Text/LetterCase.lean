import UriRouting.Text.LetterCase
/-!
What lowercasing a text leaves alone, and where it is that of the ASCII letters.

No character before the capital letters comes in, such as a digit or one of the marks `.`, `/` and
`:`, and no text becomes empty. A text and its lowercase form differ in ASCII letters only if that is
so of each of its characters.
-/

namespace UriRouting.Text

theorem toNat_toLower (c : Char) :
    c.toLower.toNat = if 0x41 ≤ c.toNat ∧ c.toNat ≤ 0x5A then c.toNat + 32 else c.toNat := by
  have hbounds : (c.val ≥ 'A'.val ∧ c.val ≤ 'Z'.val) ↔ 0x41 ≤ c.toNat ∧ c.toNat ≤ 0x5A := by
    rw [ge_iff_le, UInt32.le_iff_toNat_le, UInt32.le_iff_toNat_le]
    rfl
  unfold Char.toLower
  split
  · next hupper =>
    rw [if_pos (hbounds.mp hupper), Char.toNat_mk, UInt32.toNat_add]
    have hle := (hbounds.mp hupper).2
    show (c.toNat + 32) % 2 ^ 32 = c.toNat + 32
    omega
  · next hupper => rw [if_neg fun h => hupper (hbounds.mpr h)]

/-- The partner of a letter is behind the capital letters. -/
theorem toLowercase_above : ∀ r ∈ CaseRange.toLowercase, (0x5A : Int) < r.first + r.offset := by
  decide +kernel

theorem partner_above {n : Nat} (h : 0x5A < n) : 0x5A < partner CaseRange.toLowercase n := by
  unfold partner
  split
  · next r hr =>
    have habove := toLowercase_above r (List.mem_of_find?_eq_some hr)
    have hfirst := List.find?_some hr
    simp only [Bool.and_eq_true, decide_eq_true_eq] at hfirst
    omega
  · exact h

theorem toNat_ofNat_of_ne_zero {n : Nat} (h : (Char.ofNat n).toNat ≠ 0) : (Char.ofNat n).toNat = n := by
  by_cases hvalid : n.isValidChar
  · rw [Char.ofNat, dif_pos hvalid]
    rfl
  · rw [Char.ofNat, dif_neg hvalid] at h
    exact absurd rfl h

theorem lowerChar_of_low {c : Char} (hzero : (lowerChar c).toNat ≠ 0)
    (h : (lowerChar c).toNat < 0x41) : lowerChar c = c := by
  unfold lowerChar at h hzero ⊢
  split
  · next hascii =>
    rw [if_pos hascii, toNat_toLower] at h
    rw [← Char.toNat_inj, toNat_toLower]
    split
    · next hupper =>
      rw [if_pos hupper] at h
      omega
    · rfl
  · next hascii =>
    rw [if_neg hascii] at h hzero
    rw [toNat_ofNat_of_ne_zero hzero] at h
    have habove := partner_above (n := c.toNat) (by omega)
    omega

theorem mem_lowerAfter {before cs : List Char} {d : Char} (hzero : d.toNat ≠ 0) (hlow : d.toNat < 0x41)
    (h : d ∈ lowerAfter before cs) : d ∈ cs := by
  induction cs generalizing before with
  | nil => cases h
  | cons c cs ih =>
    rw [lowerAfter] at h
    rcases List.mem_append.mp h with h | h
    · have hletter : d ∉ ['σ', 'ς', 'i', '\u0307'] := by
        intro hmem
        simp only [List.mem_cons, List.not_mem_nil, or_false] at hmem
        rcases hmem with rfl | rfl | rfl | rfl <;> revert hlow <;> decide
      split at h
      · split at h <;> rw [List.mem_singleton] at h <;> subst h <;> simp at hletter
      · split at h
        · rcases List.mem_cons.mp h with rfl | h
          · simp at hletter
          · rw [List.mem_singleton] at h
            subst h
            simp at hletter
        · rw [List.mem_singleton] at h
          subst h
          rw [lowerChar_of_low hzero hlow]
          exact List.mem_cons_self
    · exact List.mem_cons_of_mem c (ih h)

theorem mem_lowercase {s : String} {d : Char} (hzero : d.toNat ≠ 0) (hlow : d.toNat < 0x41)
    (h : d ∈ (lowercase s).toList) : d ∈ s.toList := by
  rw [lowercase, String.toList_ofList] at h
  exact mem_lowerAfter hzero hlow h

theorem lowercase_ne_empty {s : String} (h : s ≠ "") : lowercase s ≠ "" := by
  intro hempty
  have hnil : lowerAfter [] s.toList = [] := by
    rw [lowercase] at hempty
    simpa using hempty
  cases hs : s.toList with
  | nil => exact h (String.toList_eq_nil_iff.mp hs)
  | cons c cs =>
    rw [hs, lowerAfter] at hnil
    have hhead := (List.append_eq_nil_iff.mp hnil).1
    split at hhead
    · cases hhead
    · split at hhead <;> cases hhead

theorem toLower_eq_low {c d : Char} (hlow : d.toNat < 0x41) : c.toLower = d ↔ c = d := by
  rw [← Char.toNat_inj, ← Char.toNat_inj (c := c), toNat_toLower]
  split <;> omega

/-- A character has no other lowercase form than that of an ASCII letter. -/
def LowersPlainly (c : Char) : Prop := c ≠ 'Σ' ∧ c ≠ 'İ' ∧ lowerChar c = c.toLower

theorem lowerAfter_of_plain {before cs : List Char} (h : ∀ c ∈ cs, LowersPlainly c) :
    lowerAfter before cs = cs.map Char.toLower := by
  induction cs generalizing before with
  | nil => rfl
  | cons c cs ih =>
    obtain ⟨⟨hsigma, hdotted, hlower⟩, hcs⟩ := List.forall_mem_cons.mp h
    rw [lowerAfter, if_neg hsigma, if_neg hdotted, hlower, ih hcs]
    rfl

theorem plain_of_lowerAfter {before cs : List Char} (h : lowerAfter before cs = cs.map Char.toLower) :
    ∀ c ∈ cs, LowersPlainly c := by
  induction cs generalizing before with
  | nil => exact fun c hc => (List.not_mem_nil hc).elim
  | cons c cs ih =>
    rw [lowerAfter, List.map_cons] at h
    split at h
    · next hsigma =>
      have hhead := (List.cons.inj h).1
      rw [hsigma] at hhead
      split at hhead <;> exact absurd hhead (by decide)
    · next hsigma =>
      split at h
      · next hdotted =>
        have hhead := (List.cons.inj h).1
        rw [hdotted] at hhead
        exact absurd hhead (by decide)
      · next hdotted =>
        obtain ⟨hlower, hrest⟩ := List.cons.inj h
        exact List.forall_mem_cons.mpr ⟨⟨hsigma, hdotted, hlower⟩, ih hrest⟩

/-- Lowercasing a text is lowercasing its ASCII letters just where each character says so. -/
theorem lowercase_eq_ascii_iff {s : String} :
    lowercase s = lowercaseAscii s ↔ ∀ c ∈ s.toList, LowersPlainly c := by
  rw [lowercase, lowercaseAscii, String.ofList_inj]
  exact ⟨plain_of_lowerAfter, lowerAfter_of_plain⟩

end UriRouting.Text
