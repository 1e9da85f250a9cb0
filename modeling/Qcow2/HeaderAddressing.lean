import Qcow2.Targets
import Qcow2.StdIo.Checked

/-! The offsets that lenient inspection computes, on targets of either width. -/

namespace Qcow2

open StdIo

/-- The headers whose extensions are walked. -/
structure Walked (data : List UInt8) : Prop where
  long : 72 ≤ data.length
  magic_eq : beU32 data 0 = magic
  version_range : 2 ≤ beU32 data 4 ∧ beU32 data 4 ≤ 3

namespace Checked

variable {σ : Type} [t : Target]

/-- `data.get(off..off + n)` into a zeroed buffer, its end by a plain addition. -/
def beUint (n : Nat) (data : List UInt8) (off : Nat) : EStateM (Trap Qcow2Error) σ Nat := do
  let stop ← addIn t.usizeBits off n
  return beNat ((getRange data off stop).getD (List.replicate n 0))

def backingFileName (data : List UInt8) : EStateM (Trap Qcow2Error) σ (Option String) := do
  let offset ← beUint 8 data 8
  let size := asUsize (← beUint 4 data 16)
  if offset = 0 ∨ size = 0 then
    return none
  let size := min size maxBackingLen
  let some start := usizeTryFrom offset | return none
  let some stop := checkedAdd start size | return none
  let some bytes := getRange data start stop | return none
  return some (fromUtf8Lossy bytes)

def scanExtensions (data : List UInt8) : Nat → Nat → EStateM (Trap Qcow2Error) σ (Option String)
  | 0, _ => return none
  | fuel + 1, pos => do
    let extType ← beUint 4 data pos
    let lenPos ← addIn t.usizeBits pos 4
    let extLen := asUsize (← beUint 4 data lenPos)
    if extType = extEnd then
      return none
    let some dataStart := checkedAdd pos 8 | return none
    let some dataEnd := checkedAdd dataStart extLen | return none
    if extType = extBackingFormat then
      let len := min extLen maxBackingLen
      let some sliceEnd := checkedAdd dataStart len | return none
      let some bytes := getRange data dataStart sliceEnd | return none
      return some (fromUtf8Lossy bytes)
    -- the mask `& !7` of the padding stays below its operand
    let some padded := checkedAdd extLen 7 | return none
    let some pos := checkedAdd dataStart (padded / 8 * 8) | return none
    if data.length < dataEnd ∨ data.length ≤ pos then
      return none
    scanExtensions data fuel pos

def backingFormatName (data : List UInt8) (version : Nat) :
    EStateM (Trap Qcow2Error) σ (Option String) := do
  let pos ← if version = 3 then do
      let headerLength ← beUint 4 data 100
      pure (max (asUsize headerLength) minHeaderSize)
    else
      pure minHeaderSize
  scanExtensions data 64 pos

def Qcow2Info.parse (data : List UInt8) : EStateM (Trap Qcow2Error) σ Qcow2Info := do
  if data.length < minHeaderSize then
    throw (.error .fileTooSmall)
  let found ← beUint 4 data 0
  if found ≠ magic then
    throw (.error .badMagic)
  let version ← beUint 4 data 4
  if version = 1 then
    return {
      version
      clusterBits := 0
      virtualDiskSize := ← beUint 8 data 24
      l1Size := 0
      hasBackingFile := (← beUint 8 data 8) ≠ 0
      encryptionMethod := ← beUint 4 data 36
      snapshotCount := 0
      incompatibleFeatures := 0
      backingFile := ← backingFileName data
      backingFormat := none }
  if ¬ (2 ≤ version ∧ version ≤ 3) then
    throw (.error (.unsupportedVersion version))
  let backing ← beUint 8 data 8
  let clusterBits ← beUint 4 data 20
  let virtualDiskSize ← beUint 8 data 24
  let encryptionMethod ← beUint 4 data 32
  let l1Size ← beUint 4 data 36
  let snapshotCount ← beUint 4 data 60
  let incompatibleFeatures ←
    if version = 3 ∧ 80 ≤ data.length then beUint 8 data 72 else pure 0
  let backingFile ← backingFileName data
  let backingFormat ← backingFormatName data version
  return {
    version
    clusterBits
    virtualDiskSize
    l1Size
    hasBackingFile := backing ≠ 0
    encryptionMethod
    snapshotCount
    incompatibleFeatures
    backingFile
    backingFormat }

section Passes

variable {data : List UInt8}

theorem beUint_passes {n off : Nat} (h : off + n < 2 ^ t.usizeBits) :
    (beUint n data off : EStateM (Trap Qcow2Error) σ Nat) = pure (Qcow2.beUint n data off) := by
  have hget : beNat ((getRange data off (off + n)).getD (List.replicate n 0)) =
      Qcow2.beUint n data off := by
    unfold getRange Qcow2.beUint
    by_cases hin : off + n ≤ data.length
    · rw [if_pos ⟨by omega, hin⟩, if_pos hin, Option.getD_some, Nat.add_sub_cancel_left]
      rfl
    · rw [if_neg (by omega), if_neg hin, Option.getD_none, beNat_replicate_zero]
  rw [beUint, addIn_of_lt h, pure_bind, hget]

theorem beUint_field_passes (ht : 32 ≤ t.usizeBits) {n off : Nat} (h : off + n ≤ 104) :
    (beUint n data off : EStateM (Trap Qcow2Error) σ Nat) = pure (Qcow2.beUint n data off) := by
  have hpow := two_pow_le_usize ht
  exact beUint_passes (by omega)

theorem beUint_overflows {n off : Nat} (h : 2 ^ t.usizeBits ≤ off + n) (s : σ) :
    (beUint n data off).run s = .error .panic s := by
  rw [beUint, EStateM.run_bind, addIn, run_check_of_not (by omega)]

theorem asUsize_beU32 (ht : 32 ≤ t.usizeBits) (off : Nat) :
    asUsize (beU32 data off) = beU32 data off :=
  asUsize_of_width ht (beUint_lt 4 data off)

theorem backingFileName_passes (ht : 32 ≤ t.usizeBits) :
    (backingFileName data : EStateM (Trap Qcow2Error) σ (Option String)) =
      pure (Qcow2.backingFileName data) := by
  rw [backingFileName, Qcow2.backingFileName, beUint_field_passes ht (by omega),
    beUint_field_passes ht (by omega)]
  simp only [pure_bind, asUsize_beU32 ht]
  by_cases hnone : beU64 data 8 = 0 ∨ beU32 data 16 = 0
  · rw [if_pos hnone, if_pos hnone]
    rfl
  · rw [if_neg hnone, if_neg hnone]
    rcases usizeTryFrom (beU64 data 8) with - | start
    · rfl
    dsimp only [Option.bind_eq_bind, Option.bind_some]
    rcases checkedAdd start (min (beU32 data 16) maxBackingLen) with - | stop
    · rfl
    dsimp only [Option.bind_some]
    rcases getRange data start stop with - | bytes
    · rfl
    · rfl

theorem scanExtensions_step_passes (ht : 32 ≤ t.usizeBits) {fuel pos : Nat}
    (hpos : pos + 8 < 2 ^ t.usizeBits)
    (hrest : ∀ next, next < data.length →
      (scanExtensions data fuel next : EStateM (Trap Qcow2Error) σ (Option String)) =
        pure (Qcow2.scanExtensions data fuel next)) :
    (scanExtensions data (fuel + 1) pos : EStateM (Trap Qcow2Error) σ (Option String)) =
      pure (Qcow2.scanExtensions data (fuel + 1) pos) := by
  rw [scanExtensions, Qcow2.scanExtensions, beUint_passes (by omega), pure_bind,
    addIn_of_lt (by omega), pure_bind, beUint_passes (by omega), pure_bind, asUsize_beU32 ht]
  by_cases hend : beU32 data pos = extEnd
  · rw [if_pos hend, if_pos hend]
    rfl
  rw [if_neg hend, if_neg hend]
  rcases checkedAdd pos 8 with - | dataStart
  · rfl
  dsimp only [Option.bind_eq_bind, Option.bind_some]
  rcases checkedAdd dataStart (beU32 data (pos + 4)) with - | dataEnd
  · rfl
  dsimp only [Option.bind_some]
  by_cases hformat : beU32 data pos = extBackingFormat
  · rw [if_pos hformat, if_pos hformat]
    rcases checkedAdd dataStart (min (beU32 data (pos + 4)) maxBackingLen) with - | sliceEnd
    · rfl
    dsimp only [Option.bind_some]
    rcases getRange data dataStart sliceEnd with - | bytes
    · rfl
    · rfl
  · rw [if_neg hformat, if_neg hformat]
    rcases checkedAdd (beU32 data (pos + 4)) 7 with - | padded
    · rfl
    dsimp only [Option.bind_some]
    rcases checkedAdd dataStart (padded / 8 * 8) with - | next
    · rfl
    dsimp only [Option.bind_some]
    by_cases hout : data.length < dataEnd ∨ data.length ≤ next
    · rw [if_pos hout, if_pos hout]
      rfl
    · rw [if_neg hout, if_neg hout]
      exact hrest next (by omega)

/-- Only the first record can lie outside the window, so once its header is in the
address space all of them are. -/
theorem scanExtensions_passes (ht : 32 ≤ t.usizeBits) (hdata : data.length + 8 ≤ 2 ^ t.usizeBits)
    (fuel : Nat) {pos : Nat} (hpos : pos + 8 < 2 ^ t.usizeBits) :
    (scanExtensions data fuel pos : EStateM (Trap Qcow2Error) σ (Option String)) =
      pure (Qcow2.scanExtensions data fuel pos) := by
  induction fuel generalizing pos with
  | zero => rfl
  | succ fuel ih => exact scanExtensions_step_passes ht hpos fun next hnext => ih (by omega)

theorem scanExtensions_overflows {pos : Nat} (hpos : 2 ^ t.usizeBits ≤ pos + 8) (fuel : Nat) (s : σ) :
    (scanExtensions data (fuel + 1) pos).run s = .error .panic s := by
  rw [scanExtensions]
  by_cases hfirst : 2 ^ t.usizeBits ≤ pos + 4
  · rw [EStateM.run_bind, beUint_overflows hfirst]
  · rw [beUint_passes (by omega), pure_bind, addIn_of_lt (by omega), pure_bind, EStateM.run_bind,
      beUint_overflows (by omega)]

theorem backingFormatName_passes (ht : 32 ≤ t.usizeBits)
    (hdata : data.length + 8 ≤ 2 ^ t.usizeBits) {version : Nat}
    (hstart : version = 3 → beU32 data 100 + 8 < 2 ^ t.usizeBits) :
    (backingFormatName data version : EStateM (Trap Qcow2Error) σ (Option String)) =
      pure (Qcow2.backingFormatName data version) := by
  have hpow := two_pow_le_usize ht
  rw [backingFormatName, Qcow2.backingFormatName, minHeaderSize]
  by_cases hversion : version = 3
  · have hhigh := hstart hversion
    rw [if_pos hversion, if_pos hversion, beUint_field_passes ht (by omega), pure_bind, pure_bind,
      asUsize_beU32 ht]
    exact scanExtensions_passes ht hdata 64 (by omega)
  · rw [if_neg hversion, if_neg hversion, pure_bind]
    exact scanExtensions_passes ht hdata 64 (by omega)

theorem backingFormatName_overflows (ht : 32 ≤ t.usizeBits)
    (hstart : 2 ^ t.usizeBits ≤ beU32 data 100 + 8) (s : σ) :
    (backingFormatName data 3).run s = .error .panic s := by
  rw [backingFormatName, if_pos rfl, beUint_field_passes ht (by omega), pure_bind, pure_bind,
    asUsize_beU32 ht]
  exact scanExtensions_overflows (by omega) 63 s

theorem parse_of_walked (ht : 32 ≤ t.usizeBits) (h : Walked data) :
    ∃ info : Option String → Qcow2Info,
      (Qcow2Info.parse data : EStateM (Trap Qcow2Error) σ Qcow2Info) =
          (do let backingFormat ← backingFormatName data (beU32 data 4); return info backingFormat) ∧
        Qcow2.Qcow2Info.parse data = .ok (info (Qcow2.backingFormatName data (beU32 data 4))) := by
  obtain ⟨hlen, hmagic, hversion⟩ := h
  have hlong : ¬ data.length < minHeaderSize := not_lt.mpr hlen
  have hone : beU32 data 4 ≠ 1 := by omega
  unfold Qcow2Info.parse Qcow2.Qcow2Info.parse
  rw [if_neg hlong, if_neg hlong, beUint_field_passes ht (by omega), pure_bind,
    if_neg (not_not.mpr hmagic), if_neg (not_not.mpr hmagic), beUint_field_passes ht (by omega),
    pure_bind, if_neg hone, if_neg hone, if_neg (not_not.mpr hversion), if_neg (not_not.mpr hversion),
    backingFileName_passes ht]
  simp (disch := omega) only [beUint_field_passes ht, pure_bind]
  by_cases hfeatures : beU32 data 4 = 3 ∧ 80 ≤ data.length
  · rw [if_pos hfeatures, if_pos hfeatures]
    exact ⟨_, rfl, rfl⟩
  · rw [if_neg hfeatures, if_neg hfeatures]
    exact ⟨_, rfl, rfl⟩

theorem parse_of_not_walked (ht : 32 ≤ t.usizeBits) (h : ¬ Walked data) :
    (Qcow2Info.parse data : EStateM (Trap Qcow2Error) σ Qcow2Info) =
      embed (fromResult (Qcow2.Qcow2Info.parse data)) := by
  unfold Qcow2Info.parse Qcow2.Qcow2Info.parse
  by_cases hlen : data.length < minHeaderSize
  · rw [if_pos hlen, if_pos hlen]
    rfl
  rw [if_neg hlen, if_neg hlen, beUint_field_passes ht (by omega), pure_bind]
  by_cases hmagic : beU32 data 0 ≠ magic
  · rw [if_pos hmagic, if_pos hmagic]
    rfl
  rw [if_neg hmagic, if_neg hmagic, beUint_field_passes ht (by omega), pure_bind]
  by_cases hone : beU32 data 4 = 1
  · rw [if_pos hone, if_pos hone, beUint_field_passes ht (by omega), pure_bind,
      beUint_field_passes ht (by omega), pure_bind, beUint_field_passes ht (by omega), pure_bind,
      backingFileName_passes ht, pure_bind]
    rfl
  rw [if_neg hone, if_neg hone]
  have hversion : ¬ (2 ≤ beU32 data 4 ∧ beU32 data 4 ≤ 3) :=
    fun hin => h ⟨not_lt.mp hlen, not_not.mp hmagic, hin⟩
  rw [if_pos hversion, if_pos hversion]
  rfl

theorem parse_passes (ht : 32 ≤ t.usizeBits) (hdata : data.length + 8 ≤ 2 ^ t.usizeBits)
    (hstart : Walked data → beU32 data 4 = 3 → beU32 data 100 + 8 < 2 ^ t.usizeBits) :
    (Qcow2Info.parse data : EStateM (Trap Qcow2Error) σ Qcow2Info) =
      embed (fromResult (Qcow2.Qcow2Info.parse data)) := by
  by_cases hwalked : Walked data
  · obtain ⟨info, hchecked, hplain⟩ := @parse_of_walked σ _ _ ht hwalked
    rw [hchecked, hplain, backingFormatName_passes ht hdata (hstart hwalked), pure_bind]
    rfl
  · exact parse_of_not_walked ht hwalked

theorem parse_overflows (ht : 32 ≤ t.usizeBits) (hwalked : Walked data) (hversion : beU32 data 4 = 3)
    (hstart : 2 ^ t.usizeBits ≤ beU32 data 100 + 8) (s : σ) :
    (Qcow2Info.parse data).run s = .error .panic s := by
  obtain ⟨info, hchecked, -⟩ := @parse_of_walked σ _ _ ht hwalked
  rw [hchecked, hversion, EStateM.run_bind, backingFormatName_overflows ht hstart]

end Passes

end Checked

/-- A version-3 header whose extensions would start in the last 8 of `2 ^ 32` bytes. -/
structure StartsAtTop (data : List UInt8) : Prop where
  long : 104 ≤ data.length
  magic_eq : beAt data 0 4 = magic
  version_eq : beAt data 4 4 = 3
  top : 2 ^ 32 - 8 ≤ beAt data 100 4

theorem startsAtTop_iff {data : List UInt8} : StartsAtTop data ↔
    Walked data ∧ beU32 data 4 = 3 ∧ 2 ^ 32 ≤ beU32 data 100 + 8 := by
  constructor
  · intro h
    obtain ⟨hlong, hmagic, hversion, htop⟩ := h
    have hf : ∀ {off : Nat}, off + 4 ≤ 104 → beU32 data off = beAt data off 4 :=
      fun ho => beUint_of_le (by omega)
    have h4 : beU32 data 4 = 3 := (hf (by omega)).trans hversion
    have h100 : beU32 data 100 = beAt data 100 4 := hf (by omega)
    exact ⟨⟨by omega, (hf (by omega)).trans hmagic, by omega⟩, h4, by omega⟩
  · intro h
    obtain ⟨⟨hlen, hmagic, -⟩, hversion, htop⟩ := h
    have hlong : 104 ≤ data.length := by
      by_contra hshort
      rw [beU32, beUint, if_neg (by omega)] at htop
      omega
    rw [beU32, beUint_of_le (by omega)] at hmagic hversion htop
    exact ⟨hlong, hmagic, hversion, by omega⟩

/-- Every addition of the inspection is in range or checked, unless `usize` has 32 bits
and the walk over the extensions starts in the last 8 bytes that it can address. -/
theorem inspection_in_range_iff {σ : Type} [t : Target] (ht : t.usizeBits = 32 ∨ t.usizeBits = 64)
    {data : List UInt8} (hdata : data.length ≤ 8192) (s : σ) :
    outcome ((Checked.Qcow2Info.parse data).run s) ≠ .error .panic ↔
      ¬ (t.usizeBits = 32 ∧ StartsAtTop data) := by
  have hword : beU32 data 100 < 2 ^ 32 := beUint_lt 4 data 100
  constructor
  · intro hpasses hbad
    obtain ⟨hnarrow, htop⟩ := hbad
    obtain ⟨hwalked, hversion, hstart⟩ := startsAtTop_iff.mp htop
    have hrun := Checked.parse_overflows (by omega) hwalked hversion (by rwa [hnarrow]) s
    rw [hrun] at hpasses
    exact hpasses rfl
  · intro hgood
    have hpow : 2 ^ 32 ≤ 2 ^ t.usizeBits := two_pow_le_usize (by omega)
    have hstart : Walked data → beU32 data 4 = 3 → beU32 data 100 + 8 < 2 ^ t.usizeBits := by
      intro hwalked hversion
      rcases ht with hnarrow | hwide
      · by_contra htop
        rw [hnarrow] at htop
        exact hgood ⟨hnarrow, startsAtTop_iff.mpr ⟨hwalked, hversion, by omega⟩⟩
      · rw [hwide]
        omega
    rw [Checked.parse_passes (by omega) (by omega) hstart]
    exact (Agrees.embed _ _).ne_panic

theorem inspection_in_range_iff_sample :
    outcome ((@Checked.Qcow2Info.parse Unit target32
      (headerBytes 3 9 512 0 0 0 0 ++ headerTail 0 4)).run ()) ≠ .error .panic := by
  refine (@inspection_in_range_iff Unit target32 (.inl rfl) _ (by simp) ()).mpr ?_
  rintro ⟨-, hstarts⟩
  exact absurd hstarts.top (by decide)

/-- A header whose length is all ones. -/
def endlessHeader : List UInt8 :=
  headerBytes 3 9 512 0 0 0 0 ++ (List.replicate 28 0 ++ beBytes 4 (2 ^ 32 - 1))

theorem walk_start_overflows : endlessHeader.length ≤ 8192 ∧
    outcome ((@Checked.Qcow2Info.parse Unit target32 endlessHeader).run ()) = .error .panic := by
  have hlen : endlessHeader.length = 104 := by simp [endlessHeader]
  have hwalked : Walked endlessHeader := ⟨by omega, by decide +kernel, by decide +kernel⟩
  have hrun := @Checked.parse_overflows Unit target32 endlessHeader le_rfl hwalked
    (by decide +kernel) (by decide +kernel) ()
  rw [hrun]
  exact ⟨by omega, rfl⟩

end Qcow2
