import Qcow2.Header

/-! The header extensions as an encoder writes them, and what the walk over them finds. -/

namespace Qcow2

open StdIo

/-- A record that the walk passes over. Its padding may hold anything. -/
structure HeaderExtension where
  extType : UInt32
  payload : List UInt8
  padding : List UInt8
  extType_other : extType.toNat ≠ extEnd ∧ extType.toNat ≠ extBackingFormat
  payload_lt : payload.length < 2 ^ 32
  padding_eq : padding.length = (8 - payload.length % 8) % 8

namespace HeaderExtension

variable (e : HeaderExtension)

def fields : List UInt8 := beFields [(4, e.extType.toNat), (4, e.payload.length)]

def encode : List UInt8 := e.fields ++ (e.payload ++ e.padding)

end HeaderExtension

def encodeExtensions (es : List HeaderExtension) : List UInt8 := es.flatMap HeaderExtension.encode

def formatRecord (s : String) : List UInt8 :=
  beFields [(4, extBackingFormat), (4, (utf8Bytes s).length)] ++ utf8Bytes s

/-- A window whose extensions start at `start`. No slice is longer than `isize::MAX`. -/
structure ExtensionWindow (data : List UInt8) (start : Nat) : Prop where
  length : 72 ≤ data.length ∧ data.length < 2 ^ 63
  magic_eq : beAt data 0 4 = magic
  start_eq : beAt data 4 4 = 2 ∧ start = 72 ∨
    beAt data 4 4 = 3 ∧ 104 ≤ data.length ∧ 72 ≤ start ∧ start = beAt data 100 4

section Walk

variable {data : List UInt8} {pos : Nat}

theorem beU32_of_isPrefix {fs : List (Nat × Nat)} {rest : List UInt8}
    (h : beFields fs ++ rest <+: data.drop pos) (pre post : List (Nat × Nat)) {x : Nat}
    (hfs : fs = pre ++ (4, x) :: post) (hx : x < 2 ^ 32) :
    beU32 data (pos + (pre.map Prod.fst).sum) = x := by
  have hfields : beFields fs <+: data.drop pos := (List.prefix_append _ _).trans h
  have hlen : (pre.map Prod.fst).sum + 4 ≤ (beFields fs).length := by
    rw [hfs, length_beFields, List.map_append, List.sum_append, List.map_cons, List.sum_cons]
    omega
  have hin := hfields.length_le
  rw [List.length_drop] at hin
  rw [beU32, beUint_of_le (by omega), ← beAt_drop, ← beAt_of_isPrefix hfields hlen, hfs,
    beAt_beFields hx]

theorem length_encode_extension (e : HeaderExtension) :
    e.encode.length = 8 + (e.payload.length + 7) / 8 * 8 := by
  have hpad := e.padding_eq
  have hfields : e.fields.length = 8 := by
    rw [HeaderExtension.fields, length_beFields]
    rfl
  simp only [HeaderExtension.encode, List.length_append, hfields]
  omega

theorem checkedAdd_of_lt {x y : Nat} (h : x + y < 2 ^ 64) : checkedAdd x y = some (x + y) :=
  if_pos h

theorem scanExtensions_step {e : HeaderExtension} (hdata : data.length < 2 ^ 63)
    (h : e.encode <+: data.drop pos) (fuel : Nat) :
    scanExtensions data (fuel + 1) pos =
      if data.length ≤ pos + e.encode.length then none
      else scanExtensions data fuel (pos + e.encode.length) := by
  have htype : beU32 data pos = e.extType.toNat :=
    beU32_of_isPrefix h [] [(4, e.payload.length)] rfl e.extType.toNat_lt
  have hlen : beU32 data (pos + 4) = e.payload.length :=
    beU32_of_isPrefix h [(4, e.extType.toNat)] [] rfl e.payload_lt
  have hsize := length_encode_extension e
  have hin := h.length_le
  have hpos : 0 < e.encode.length := by omega
  rw [List.length_drop] at hin
  have hnext : pos + 8 + (e.payload.length + 7) / 8 * 8 = pos + e.encode.length := by omega
  rw [scanExtensions, htype, hlen, if_neg e.extType_other.1, checkedAdd_of_lt (by omega)]
  simp only [Option.bind_eq_bind, Option.bind_some]
  rw [checkedAdd_of_lt (by omega), Option.bind_some, if_neg e.extType_other.2,
    checkedAdd_of_lt (by omega), Option.bind_some, checkedAdd_of_lt (by omega), Option.bind_some, hnext]
  by_cases hend : data.length ≤ pos + e.encode.length
  · rw [if_pos (.inr hend), if_pos hend, Option.bind_none]
  · rw [if_neg (by omega), if_neg hend]

theorem scanExtensions_run {es : List HeaderExtension} (hdata : data.length < 2 ^ 63)
    (h : encodeExtensions es <+: data.drop pos)
    (hin : pos + (encodeExtensions es).length < data.length) (fuel : Nat) :
    scanExtensions data (es.length + fuel) pos =
      scanExtensions data fuel (pos + (encodeExtensions es).length) := by
  induction es generalizing pos with
  | nil => rw [List.length_nil, Nat.zero_add, encodeExtensions, List.flatMap_nil, List.length_nil,
      Nat.add_zero]
  | cons e es ih =>
    rw [encodeExtensions, List.flatMap_cons, ← encodeExtensions] at h hin ⊢
    rw [List.length_append] at hin ⊢
    have hhead : e.encode <+: data.drop pos := (List.prefix_append _ _).trans h
    have hstep := scanExtensions_step hdata hhead (es.length + fuel)
    have htail := ih (drop_append_of_isPrefix h) (by omega)
    rw [if_neg (by omega), htail] at hstep
    rw [List.length_cons, Nat.add_right_comm, hstep, Nat.add_assoc]

theorem scanExtensions_end (h : beU32 data pos = extEnd) (fuel : Nat) :
    scanExtensions data fuel pos = none := by
  cases fuel with
  | zero => rfl
  | succ fuel =>
    rw [scanExtensions, if_pos h]
    rfl

theorem length_formatRecord (s : String) : (formatRecord s).length = 8 + (utf8Bytes s).length := by
  rw [formatRecord, List.length_append, length_beFields]
  rfl

theorem scanExtensions_format {s : String} (hdata : data.length < 2 ^ 63)
    (hs : (utf8Bytes s).length ≤ 4096) (h : formatRecord s <+: data.drop pos) (fuel : Nat) :
    scanExtensions data (fuel + 1) pos = some s := by
  have htype : beU32 data pos = extBackingFormat :=
    beU32_of_isPrefix h [] [(4, (utf8Bytes s).length)] rfl (by decide)
  have hlen : beU32 data (pos + 4) = (utf8Bytes s).length :=
    beU32_of_isPrefix h [(4, extBackingFormat)] [] rfl (by omega)
  have hpayload : utf8Bytes s <+: data.drop (pos + 8) := drop_append_of_isPrefix h
  have hin := h.length_le
  have hsize := length_formatRecord s
  have hmin : min (utf8Bytes s).length maxBackingLen = (utf8Bytes s).length := Nat.min_eq_left hs
  rw [List.length_drop] at hin
  have hbytes : getRange data (pos + 8) (pos + 8 + (utf8Bytes s).length) = some (utf8Bytes s) := by
    rw [getRange, if_pos ⟨by omega, by omega⟩, Nat.add_sub_cancel_left, slice,
      ← List.prefix_iff_eq_take.mp hpayload]
  rw [scanExtensions, htype, hlen, if_neg (by decide), checkedAdd_of_lt (by omega)]
  simp only [Option.bind_eq_bind, Option.bind_some]
  rw [checkedAdd_of_lt (by omega), Option.bind_some, if_pos trivial, hmin,
    checkedAdd_of_lt (by omega), Option.bind_some, hbytes, Option.bind_some, fromUtf8Lossy_utf8Bytes]
  rfl

theorem scanExtensions_cut {es : List HeaderExtension} (hdata : data.length < 2 ^ 63)
    (h : data.drop pos = encodeExtensions es) (fuel : Nat) : scanExtensions data fuel pos = none := by
  induction es generalizing pos fuel with
  | nil =>
    have hout : data.length ≤ pos := List.drop_eq_nil_iff.mp h
    exact scanExtensions_end (if_neg (by omega)) fuel
  | cons e es ih =>
    cases fuel with
    | zero => rfl
    | succ fuel =>
      rw [encodeExtensions, List.flatMap_cons, ← encodeExtensions] at h
      have hrest : data.drop (pos + e.encode.length) = encodeExtensions es := by
        rw [← List.drop_drop, h, List.drop_left]
      rw [scanExtensions_step hdata ⟨_, h.symm⟩, ih hrest, ite_self]

end Walk

theorem Qcow2Info.parse_extensions {data : List UInt8} {start : Nat} (hw : ExtensionWindow data start) :
    ∃ i, Qcow2Info.parse data = .ok i ∧ i.backingFormat = scanExtensions data 64 start := by
  obtain ⟨⟨hlen, -⟩, hmagic, hstart⟩ := hw
  have hword : ∀ {off : Nat}, off + 4 ≤ 72 → beU32 data off = beAt data off 4 :=
    fun ho => beUint_of_le (by omega)
  have hversion : beU32 data 4 = 2 ∨ beU32 data 4 = 3 := by
    rw [hword (by omega)]
    omega
  have hpos : backingFormatName data (beU32 data 4) = scanExtensions data 64 start := by
    rw [hword (by omega), backingFormatName, minHeaderSize]
    rcases hstart with ⟨h2, rfl⟩ | ⟨h3, hlong, hle, rfl⟩
    · rw [if_neg (by omega)]
    · rw [if_pos h3, beU32, beUint_of_le (by omega), Nat.max_eq_left hle]
  have hmagic' : ¬ beU32 data 0 ≠ magic := not_not.mpr ((hword (by omega)).trans hmagic)
  unfold Qcow2Info.parse
  simp only [minHeaderSize, if_neg (show ¬ data.length < 72 by omega), if_neg hmagic',
    if_neg (show ¬ beU32 data 4 = 1 by omega),
    if_neg (show ¬ ¬ (2 ≤ beU32 data 4 ∧ beU32 data 4 ≤ 3) by omega)]
  exact ⟨_, rfl, hpos⟩

/-- Behind at most 63 other records a format record is found, and neither an end marker
nor the end of the window is taken for one. -/
theorem backing_format_found {data : List UInt8} {start : Nat} (hw : ExtensionWindow data start)
    {es : List HeaderExtension} (hes : es.length ≤ 63) :
    (∀ s, (utf8Bytes s).length ≤ 4096 →
        encodeExtensions es ++ formatRecord s <+: data.drop start →
          ∃ i, Qcow2Info.parse data = .ok i ∧ i.backingFormat = some s) ∧
      (encodeExtensions es ++ beBytes 4 extEnd <+: data.drop start →
        ∃ i, Qcow2Info.parse data = .ok i ∧ i.backingFormat = none) ∧
      (data.drop start = encodeExtensions es →
        ∃ i, Qcow2Info.parse data = .ok i ∧ i.backingFormat = none) := by
  obtain ⟨i, hparse, hformat⟩ := Qcow2Info.parse_extensions hw
  have hdata := hw.length.2
  obtain ⟨fuel, hfuel⟩ : ∃ fuel, 64 = es.length + (fuel + 1) := ⟨63 - es.length, by omega⟩
  rw [hfuel] at hformat
  -- what follows the records has bytes of its own, so the walk comes to it
  have hreach : ∀ {rest : List UInt8}, 0 < rest.length →
      encodeExtensions es ++ rest <+: data.drop start → rest <+: data.drop
        (start + (encodeExtensions es).length) ∧ i.backingFormat =
          scanExtensions data (fuel + 1) (start + (encodeExtensions es).length) := by
    intro rest hrest h
    have hin := h.length_le
    rw [List.length_append, List.length_drop] at hin
    exact ⟨drop_append_of_isPrefix h, hformat.trans
      (scanExtensions_run hdata ((List.prefix_append _ _).trans h) (by omega) _)⟩
  refine ⟨?_, ?_, ?_⟩
  · intro s hs h
    have hsize := length_formatRecord s
    obtain ⟨hrecord, hscan⟩ := hreach (by omega) h
    exact ⟨i, hparse, hscan.trans (scanExtensions_format hdata hs hrecord fuel)⟩
  · intro h
    obtain ⟨hmarker, hscan⟩ := hreach (by rw [length_beBytes]; decide) h
    have hfields : beFields [(4, extEnd)] ++ [] <+:
        data.drop (start + (encodeExtensions es).length) := by
      simp only [beFields, List.flatMap_cons, List.flatMap_nil, List.append_nil]
      exact hmarker
    have hend := beU32_of_isPrefix hfields [] [] rfl (by decide)
    exact ⟨i, hparse, hscan.trans (scanExtensions_end hend _)⟩
  · intro h
    exact ⟨i, hparse, hformat.trans (scanExtensions_cut hdata h _)⟩

def strayExtension : HeaderExtension where
  extType := 0x12345678
  payload := [1, 2, 3]
  padding := List.replicate 5 0
  extType_other := by decide
  payload_lt := by decide
  padding_eq := by decide

/-- The format record behind another one, in a version-2 window. -/
def rawWindow : List UInt8 :=
  headerBytes 2 9 512 0 0 0 0 ++ (encodeExtensions [strayExtension] ++ formatRecord "raw")

theorem backing_format_found_sample :
    ∃ i, Qcow2Info.parse rawWindow = .ok i ∧ i.backingFormat = some "raw" := by
  have hbytes : utf8Bytes "raw" = [114, 97, 119] := by decide +kernel
  have hdrop : rawWindow.drop 72 = encodeExtensions [strayExtension] ++ formatRecord "raw" :=
    List.drop_left' (length_headerBytes _ _ _ _ _ _ _)
  have hwindow : ExtensionWindow rawWindow 72 :=
    ⟨by decide +kernel, by decide +kernel, .inl ⟨by decide +kernel, rfl⟩⟩
  have hfew : [strayExtension].length ≤ 63 := by decide
  exact (backing_format_found hwindow hfew).1 "raw" (by rw [hbytes]; decide) (by rw [hdrop])

end Qcow2
