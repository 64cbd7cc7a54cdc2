import UriRouting.Pattern.CharSet
/-!
Sets of characters as rows of byte ranges.

A row stands for the characters whose encoded bytes lie in its ranges, one range for each byte. A
range of characters is cut into rows where the number of bytes changes, and where a byte is met that
does not go through all its values.
-/

namespace UriRouting

structure ByteRange where
  first : Nat
  last : Nat
  deriving DecidableEq, Repr

abbrev ByteRow := List ByteRange

namespace ByteRow

def trailing : ByteRange := ⟨0x80, 0xBF⟩

/-- Rows for the codes from `first` to `last`, with `more` bytes after the first one. Each of these
holds six bits, and `base` is added to the first. -/
def ofCodes : Nat → Nat → Nat → Nat → List ByteRow
  | 0, base, first, last => [[⟨base + first, base + last⟩]]
  | more + 1, base, first, last =>
    let m := 64 ^ (more + 1)
    let under (lead a b : Nat) : List ByteRow :=
      (ofCodes more 0x80 a b).map (⟨base + lead, base + lead⟩ :: ·)
    let low := first / m
    let high := last / m
    if low = high then under low (first % m) (last % m)
    else
      let start := if first % m = 0 then low else low + 1
      let stop := if last % m = m - 1 then high + 1 else high
      (if first % m = 0 then [] else under low (first % m) (m - 1))
        ++ (if start < stop then
            [⟨base + start, base + (stop - 1)⟩ :: List.replicate (more + 1) trailing] else [])
        ++ (if last % m = m - 1 then [] else under high 0 (last % m))

/-- The codes with one number of bytes: how many follow the first one, what is added to it, and the
first and last code. Three bytes have a gap of codes that are no characters. -/
def blocks : List (Nat × Nat × Nat × Nat) := [
  (0, 0, 0, 0x7F), (1, 0xC0, 0x80, 0x7FF), (2, 0xE0, 0x800, 0xD7FF), (2, 0xE0, 0xE000, 0xFFFF),
  (3, 0xF0, 0x10000, 0x10FFFF)]

def ofRange (range : Nat × Nat) : List ByteRow :=
  blocks.flatMap fun (more, base, first, last) =>
    let a := max first range.1
    let b := min last range.2
    if a ≤ b then ofCodes more base a b else []

end ByteRow

def CharSet.byteRows (s : CharSet) : List ByteRow := s.ranges.flatMap ByteRow.ofRange

end UriRouting
