import Qcow2.StdIo.Bytes

/-! Lossy UTF-8 decoding. -/

namespace StdIo

def decodeChar (bs : List UInt8) : Option Char :=
  ByteArray.utf8DecodeChar? ⟨(bs.take 4).toArray⟩ 0

def isContinuation (b : UInt8) : Bool := 0x80 ≤ b ∧ b ≤ 0xBF

def leadsThree (b₀ b₁ : UInt8) : Bool :=
  (b₀ = 0xE0 ∧ 0xA0 ≤ b₁ ∧ b₁ ≤ 0xBF) ∨ (0xE1 ≤ b₀ ∧ b₀ ≤ 0xEC ∧ isContinuation b₁) ∨
    (b₀ = 0xED ∧ 0x80 ≤ b₁ ∧ b₁ ≤ 0x9F) ∨ (0xEE ≤ b₀ ∧ b₀ ≤ 0xEF ∧ isContinuation b₁)

def leadsFour (b₀ b₁ : UInt8) : Bool :=
  (b₀ = 0xF0 ∧ 0x90 ≤ b₁ ∧ b₁ ≤ 0xBF) ∨ (0xF1 ≤ b₀ ∧ b₀ ≤ 0xF3 ∧ isContinuation b₁) ∨
    (b₀ = 0xF4 ∧ 0x80 ≤ b₁ ∧ b₁ ≤ 0x8F)

/-- How many bytes one replacement character stands for: the longest start of
an encoding that the ill-formed sequence shares. -/
def illFormedLength : List UInt8 → Nat
  | b₀ :: b₁ :: b₂ :: _ =>
    if leadsFour b₀ b₁ then (if isContinuation b₂ then 3 else 2)
    else if leadsThree b₀ b₁ then 2 else 1
  | [b₀, b₁] => if leadsFour b₀ b₁ || leadsThree b₀ b₁ then 2 else 1
  | _ => 1

def lossyChars : Nat → List UInt8 → List Char
  | 0, _ => []
  | _, [] => []
  | fuel + 1, bs =>
    match decodeChar bs with
    | some c => c :: lossyChars fuel (bs.drop c.utf8Size)
    | none => '\uFFFD' :: lossyChars fuel (bs.drop (illFormedLength bs))

/-- `String::from_utf8_lossy`. -/
def fromUtf8Lossy (bs : List UInt8) : String := String.ofList (lossyChars bs.length bs)

def utf8Bytes (s : String) : List UInt8 := s.toByteArray.data.toList

theorem utf8Bytes_ofList (cs : List Char) :
    utf8Bytes (String.ofList cs) = cs.flatMap String.utf8EncodeChar := by
  rw [utf8Bytes, String.toByteArray_ofList, List.utf8Encode, List.data_toByteArray]

theorem decodeChar_encode (c : Char) (rest : List UInt8) :
    decodeChar (String.utf8EncodeChar c ++ rest) = some c := by
  have hlen : (String.utf8EncodeChar c).length ≤ 4 := by
    rw [String.length_utf8EncodeChar]
    exact c.utf8Size_le_four
  have htake : (String.utf8EncodeChar c ++ rest).take 4 =
      String.utf8EncodeChar c ++ rest.take (4 - (String.utf8EncodeChar c).length) := by
    rw [List.take_append, List.take_of_length_le hlen]
  have hbytes : (⟨(String.utf8EncodeChar c ++ rest.take (4 - (String.utf8EncodeChar c).length)).toArray⟩ :
      ByteArray) = (String.utf8EncodeChar c).toByteArray ++
        ⟨(rest.take (4 - (String.utf8EncodeChar c).length)).toArray⟩ := by
    apply ByteArray.ext
    simp
  rw [decodeChar, htake, hbytes, ByteArray.utf8DecodeChar?_utf8EncodeChar_append]

theorem lossyChars_encode {cs : List Char} {fuel : Nat}
    (hfuel : (cs.flatMap String.utf8EncodeChar).length ≤ fuel) :
    lossyChars fuel (cs.flatMap String.utf8EncodeChar) = cs := by
  induction cs generalizing fuel with
  | nil => cases fuel <;> rfl
  | cons c cs ih =>
    have hsize : (String.utf8EncodeChar c).length = c.utf8Size := String.length_utf8EncodeChar c
    have hpos : 0 < c.utf8Size := c.utf8Size_pos
    rw [List.flatMap_cons, List.length_append] at hfuel
    obtain ⟨n, rfl⟩ : ∃ n, fuel = n + 1 := ⟨fuel - 1, by omega⟩
    have hne : String.utf8EncodeChar c ++ cs.flatMap String.utf8EncodeChar ≠ [] := by
      simp [String.utf8EncodeChar_ne_nil]
    rw [List.flatMap_cons, lossyChars, decodeChar_encode]
    · simp only [← hsize, List.drop_left]
      rw [ih (by omega)]
    · exact hne

theorem fromUtf8Lossy_utf8Bytes (s : String) : fromUtf8Lossy (utf8Bytes s) = s := by
  obtain ⟨cs, rfl⟩ : ∃ cs, s = String.ofList cs := ⟨s.toList, String.ofList_toList.symm⟩
  rw [fromUtf8Lossy, utf8Bytes_ofList, lossyChars_encode le_rfl]

theorem illFormedLength_pos (bs : List UInt8) : 0 < illFormedLength bs := by
  unfold illFormedLength
  split
  · split_ifs <;> decide
  · split_ifs <;> decide
  · decide

theorem utf8Size_le_of_decodeChar {bs : List UInt8} {c : Char} (h : decodeChar bs = some c) :
    c.utf8Size ≤ bs.length := by
  have hle := ByteArray.le_size_of_utf8DecodeChar?_eq_some h
  have htake := List.length_take_le' 4 bs
  have hsize : (⟨(bs.take 4).toArray⟩ : ByteArray).size = (bs.take 4).length := rfl
  omega

/-- A decoded character takes the bytes it was encoded in, a replacement character three for one. -/
theorem length_lossyChars_le (fuel : Nat) (bs : List UInt8) :
    ((lossyChars fuel bs).flatMap String.utf8EncodeChar).length ≤ 3 * bs.length := by
  induction fuel generalizing bs with
  | zero => exact Nat.zero_le _
  | succ fuel ih =>
    cases bs with
    | nil => exact Nat.zero_le _
    | cons b bs =>
      rw [lossyChars]
      · cases hc : decodeChar (b :: bs) with
        | some c =>
          have hpos := c.utf8Size_pos
          have hle := utf8Size_le_of_decodeChar hc
          have hrest := ih ((b :: bs).drop c.utf8Size)
          rw [List.length_drop] at hrest
          rw [List.flatMap_cons, List.length_append, String.length_utf8EncodeChar]
          omega
        | none =>
          have hpos := illFormedLength_pos (b :: bs)
          have hrest := ih ((b :: bs).drop (illFormedLength (b :: bs)))
          have hsize : (String.utf8EncodeChar '\uFFFD').length = 3 := by decide
          rw [List.length_drop, List.length_cons] at hrest
          rw [List.flatMap_cons, List.length_append, hsize, List.length_cons]
          omega
      · exact List.cons_ne_nil _ _

theorem utf8ByteSize_fromUtf8Lossy_le (bs : List UInt8) :
    (fromUtf8Lossy bs).utf8ByteSize ≤ 3 * bs.length := by
  have hbytes : (utf8Bytes (fromUtf8Lossy bs)).length = (fromUtf8Lossy bs).utf8ByteSize := rfl
  rw [← hbytes, fromUtf8Lossy, utf8Bytes_ofList]
  exact length_lossyChars_le _ _

example : fromUtf8Lossy [0x61, 0xF0, 0x9F, 0x98, 0x62, 0xC3, 0xA9] = "a\uFFFDbé" := by
  decide +kernel

end StdIo
