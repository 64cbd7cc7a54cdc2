import UriRouting.Pattern.Parser
import UriRouting.Router.Uri
/-!
Reading encoded values back.

A percent sign and two digits stand for a byte, and any other character for its own bytes.
`percentDecode_percentEncode` says that encoding loses nothing, whatever the value. An encoded value is made
of unreserved characters and percent signs.
-/

namespace UriRouting

/-! ## Decoding -/

/-- The bytes that an encoded text stands for. A percent sign has to be followed by two digits. -/
def decodedBytes : List Char → Option (List UInt8)
  | [] => some []
  | '%' :: high :: low :: rest => do
    let high ← Pattern.hexValue? high
    let low ← Pattern.hexValue? low
    let bytes ← decodedBytes rest
    return .ofNat (16 * high + low) :: bytes
  | c :: rest => if c = '%' then none else (decodedBytes rest).map (String.utf8EncodeChar c ++ ·)

def percentDecode (text : String) : Option String :=
  (decodedBytes text.toList).bind fun bytes => String.fromUTF8? bytes.toByteArray

/-! ## Encoding and decoding -/

theorem hexValue?_hexDigit : ∀ n < 16, Pattern.hexValue? (hexDigit n) = some n := by decide

theorem decodedBytes_percentByte (b : UInt8) (rest : List Char) :
    decodedBytes (percentByte b ++ rest) = (decodedBytes rest).map (b :: ·) := by
  have hlt := b.toNat_lt
  have hhigh := hexValue?_hexDigit (b.toNat / 16) (by omega)
  have hlow := hexValue?_hexDigit (b.toNat % 16) (Nat.mod_lt _ (by decide))
  have hbyte : UInt8.ofNat (16 * (b.toNat / 16) + b.toNat % 16) = b := by
    rw [Nat.div_add_mod, UInt8.ofNat_toNat]
  show decodedBytes ('%' :: hexDigit (b.toNat / 16) :: hexDigit (b.toNat % 16) :: rest) = _
  rw [decodedBytes, hhigh, hlow]
  simp only [Option.bind_eq_bind, Option.bind_some, hbyte]
  cases decodedBytes rest <;> rfl

theorem decodedBytes_percentBytes (bytes : List UInt8) (rest : List Char) :
    decodedBytes (bytes.flatMap percentByte ++ rest) = (decodedBytes rest).map (bytes ++ ·) := by
  induction bytes with
  | nil => simp
  | cons b bytes ih =>
    rw [List.flatMap_cons, List.append_assoc, decodedBytes_percentByte, ih, Option.map_map]
    rfl

theorem decodedBytes_plain {c : Char} (h : c ≠ '%') (rest : List Char) :
    decodedBytes (c :: rest) = (decodedBytes rest).map (String.utf8EncodeChar c ++ ·) := by
  rw [decodedBytes, if_neg h]
  rintro high low rest' rfl
  exact absurd rfl h

def encodedChar (c : Char) : List Char :=
  if isUnreserved c then [c] else (String.utf8EncodeChar c).flatMap percentByte

theorem decodedBytes_encodedChar (c : Char) (rest : List Char) :
    decodedBytes (encodedChar c ++ rest) = (decodedBytes rest).map (String.utf8EncodeChar c ++ ·) := by
  unfold encodedChar
  split
  · next hunreserved =>
    refine decodedBytes_plain ?_ rest
    rintro rfl
    exact absurd hunreserved (by decide)
  · exact decodedBytes_percentBytes _ rest

theorem decodedBytes_encodedChars (cs : List Char) :
    decodedBytes (cs.flatMap encodedChar) = some (cs.flatMap String.utf8EncodeChar) := by
  induction cs with
  | nil => rfl
  | cons c cs ih => rw [List.flatMap_cons, decodedBytes_encodedChar, ih, List.flatMap_cons, Option.map_some]

theorem toList_percentEncode (s : String) : (percentEncode s).toList = s.toList.flatMap encodedChar := by
  rw [percentEncode, String.toList_ofList]
  rfl

theorem percentDecode_percentEncode (s : String) : percentDecode (percentEncode s) = some s := by
  have hbytes : (s.toList.flatMap String.utf8EncodeChar).toByteArray = s.toByteArray :=
    String.utf8Encode_toList
  rw [percentDecode, toList_percentEncode, decodedBytes_encodedChars, Option.bind_some, hbytes,
    String.fromUTF8?, dif_pos s.isValidUTF8]
  rfl

/-! ## Characters of encoded values -/

theorem isUnreserved_hexDigit : ∀ n < 16, isUnreserved (hexDigit n) = true := by decide

theorem mem_percentEncode {s : String} {c : Char} (h : c ∈ (percentEncode s).toList) :
    isUnreserved c = true ∨ c = '%' := by
  rw [toList_percentEncode] at h
  obtain ⟨d, -, hd⟩ := List.mem_flatMap.mp h
  unfold encodedChar at hd
  split at hd
  · next hunreserved =>
    rw [List.mem_singleton.mp hd]
    exact .inl hunreserved
  · obtain ⟨b, -, hb⟩ := List.mem_flatMap.mp hd
    have hlt := b.toNat_lt
    rcases List.mem_cons.mp hb with rfl | hb
    · exact .inr rfl
    · left
      rcases List.mem_cons.mp hb with rfl | hb
      · exact isUnreserved_hexDigit _ (by omega)
      · rw [List.mem_singleton.mp hb]
        exact isUnreserved_hexDigit _ (Nat.mod_lt _ (by decide))

/-- A value brings no slash with it. -/
theorem slash_not_mem_percentEncode (s : String) : '/' ∉ (percentEncode s).toList := by
  intro h
  rcases mem_percentEncode h with hunreserved | heq
  · exact absurd hunreserved (by decide)
  · exact absurd heq (by decide)

end UriRouting
