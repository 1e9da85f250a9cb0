import Qcow2.StdIo.Sources
import Qcow2.StdIo.Words
import Qcow2.StdIo.Utf8

/-! The header decoders: the strict one behind the reader and the lenient one
behind the auditor. -/

namespace Qcow2

open StdIo

inductive Qcow2Error where
  | io (e : IoError)
  | badMagic
  | unsupportedVersion (version : Nat)
  | encryptedNotSupported
  | backingFileNotSupported
  | compressedCluster
  | unsupportedIncompatibleFeatures (bits : Nat)
  | fileTooSmall
  | clusterBitsOutOfRange (bits : Nat)
  | l1TableTooLarge (entries : Nat)
  deriving DecidableEq

/-- `?` on an I/O result: the error is wrapped by `From<std::io::Error>`. -/
def io {σ α : Type} (x : EStateM IoError σ α) : EStateM Qcow2Error σ α :=
  EStateM.adaptExcept .io x

theorem run_io {σ α : Type} {x : EStateM IoError σ α} {o : Except IoError α} {s s' : σ}
    (h : x.run s = withState o s') : (io x).run s = withState (o.mapError .io) s' := by
  rw [io, EStateM.run_adaptExcept, h]
  cases o <;> rfl

def magic : Nat := 0x514649fb

def minHeaderSize : Nat := 72

/-- `1 << 2 | 1 << 3 | 1 << 4`: external data file, compression type, extended L2. -/
def incompatUnsupported : Nat := 1 <<< 2 ||| 1 <<< 3 ||| 1 <<< 4

/-- A big-endian field of `n` bytes, 0 when it does not lie in the window. The
header, snapshot and refcount modules each hold a copy of these readers. -/
def beUint (n : Nat) (data : List UInt8) (off : Nat) : Nat :=
  if off + n ≤ data.length then beAt data off n else 0

abbrev beU16 := beUint 2

abbrev beU32 := beUint 4

abbrev beU64 := beUint 8

theorem beUint_lt (n : Nat) (data : List UInt8) (off : Nat) : beUint n data off < 256 ^ n := by
  unfold beUint
  split
  · exact beAt_lt data off n
  · positivity

theorem beUint_of_le {n off : Nat} {data : List UInt8} (h : off + n ≤ data.length) :
    beUint n data off = beAt data off n := if_pos h

theorem beUint_header {n off w : Nat} {data : List UInt8} (hw : 72 ≤ w) (hlen : 72 ≤ data.length)
    (h : off + n ≤ 72) : beUint n (slice data 0 w) off = beAt data off n := by
  have hwindow := length_slice data 0 w
  rw [beUint_of_le (by omega), beAt_window data (by omega)]

/-- The fields the reader navigates by, in the ranges the parser lets through. -/
structure Qcow2Header where
  clusterBits : Nat
  diskSize : Nat
  l1Size : Nat
  l1TableOffset : Nat
  clusterBits_range : 9 ≤ clusterBits ∧ clusterBits ≤ 20
  diskSize_lt : diskSize < 2 ^ 64
  l1Size_lt : l1Size < 2 ^ 32
  l1TableOffset_lt : l1TableOffset < 2 ^ 64

def Qcow2Header.parse (data : List UInt8) : Except Qcow2Error Qcow2Header :=
  if data.length < minHeaderSize then .error .fileTooSmall
  else if beU32 data 0 ≠ magic then .error .badMagic
  else
    let version := beU32 data 4
    if ¬ (2 ≤ version ∧ version ≤ 3) then .error (.unsupportedVersion version)
    else if beU64 data 8 ≠ 0 then .error .backingFileNotSupported
    else
      let clusterBits := beU32 data 20
      if hbits : 9 ≤ clusterBits ∧ clusterBits ≤ 20 then
        if beU32 data 32 ≠ 0 then .error .encryptedNotSupported
        else
          let unsupported := beU64 data 72 &&& incompatUnsupported
          if version = 3 ∧ 80 ≤ data.length ∧ unsupported ≠ 0 then
            .error (.unsupportedIncompatibleFeatures unsupported)
          else
            .ok
              { clusterBits
                diskSize := beU64 data 24
                l1Size := beU32 data 36
                l1TableOffset := beU64 data 40
                clusterBits_range := hbits
                diskSize_lt := beUint_lt 8 data 24
                l1Size_lt := beUint_lt 4 data 36
                l1TableOffset_lt := beUint_lt 8 data 40 }
      else .error (.clusterBitsOutOfRange clusterBits)

theorem Qcow2Header.parse_ok {data : List UInt8} {h : Qcow2Header} (he : parse data = .ok h) :
    72 ≤ data.length ∧ beU32 data 0 = magic ∧ (beU32 data 4 = 2 ∨ beU32 data 4 = 3) ∧
      beU64 data 8 = 0 ∧ beU32 data 32 = 0 ∧
      (beU32 data 4 = 3 → 80 ≤ data.length → beU64 data 72 &&& incompatUnsupported = 0) ∧
      h.clusterBits = beU32 data 20 ∧ h.diskSize = beU64 data 24 ∧
      h.l1Size = beU32 data 36 ∧ h.l1TableOffset = beU64 data 40 := by
  simp only [parse, minHeaderSize] at he
  split_ifs at he with hlen hmagic hversion hbacking hbits hcrypt hfeat
  cases he
  refine ⟨by omega, by simpa using hmagic, by omega, by simpa using hbacking,
    by simpa using hcrypt, ?_, rfl, rfl, rfl, rfl⟩
  intro h3 h80
  by_contra hne
  exact hfeat ⟨h3, h80, hne⟩

theorem Qcow2Header.parse_window {bytes : List UInt8} {h : Qcow2Header}
    (he : parse (slice bytes 0 104) = .ok h) :
    72 ≤ bytes.length ∧ beAt bytes 0 4 = magic ∧ (beAt bytes 4 4 = 2 ∨ beAt bytes 4 4 = 3) ∧
      h.clusterBits = beAt bytes 20 4 ∧ h.diskSize = beAt bytes 24 8 ∧
      h.l1Size = beAt bytes 36 4 ∧ h.l1TableOffset = beAt bytes 40 8 := by
  obtain ⟨hwindow, hmagic, hversion, -, -, -, hbits, hsize, hl1Size, hl1Off⟩ := parse_ok he
  have hlen : 72 ≤ bytes.length := by
    rw [length_slice] at hwindow
    omega
  have hf : ∀ {n off : Nat}, off + n ≤ 72 → beUint n (slice bytes 0 104) off = beAt bytes off n :=
    fun ho => beUint_header (by omega) hlen ho
  rw [beU32, hf (by omega)] at hmagic hversion
  exact ⟨hlen, hmagic, hversion, hbits.trans (hf (by omega)), hsize.trans (hf (by omega)),
    hl1Size.trans (hf (by omega)), hl1Off.trans (hf (by omega))⟩

theorem Qcow2Header.parse_ne_io (data : List UInt8) (e : IoError) :
    parse data ≠ .error (.io e) := by
  intro h
  simp only [parse] at h
  split_ifs at h <;> cases h

structure Qcow2Info where
  version : Nat
  clusterBits : Nat
  virtualDiskSize : Nat
  l1Size : Nat
  hasBackingFile : Bool
  encryptionMethod : Nat
  snapshotCount : Nat
  incompatibleFeatures : Nat
  backingFile : Option String
  backingFormat : Option String
  deriving DecidableEq

def extBackingFormat : Nat := 0xE2792ACA

def extEnd : Nat := 0

def maxBackingLen : Nat := 4096

def getRange (data : List UInt8) (start stop : Nat) : Option (List UInt8) :=
  if start ≤ stop ∧ stop ≤ data.length then some (slice data start (stop - start)) else none

def backingFileName [Target] (data : List UInt8) : Option String := do
  let offset := beU64 data 8
  let size := beU32 data 16
  if offset = 0 ∨ size = 0 then none
  let size := min size maxBackingLen
  let start ← usizeTryFrom offset
  let stop ← checkedAdd start size
  let bytes ← getRange data start stop
  return fromUtf8Lossy bytes

/-- One pass per extension record, at most as many as the fuel. -/
def scanExtensions [Target] (data : List UInt8) : Nat → Nat → Option String
  | 0, _ => none
  | fuel + 1, pos => do
    let extType := beU32 data pos
    let extLen := beU32 data (pos + 4)
    if extType = extEnd then none
    let dataStart ← checkedAdd pos 8
    let dataEnd ← checkedAdd dataStart extLen
    if extType = extBackingFormat then
      let len := min extLen maxBackingLen
      let sliceEnd ← checkedAdd dataStart len
      let bytes ← getRange data dataStart sliceEnd
      return fromUtf8Lossy bytes
    -- padded to 8 bytes: `(ext_len + 7) & !7`
    let padded := (← checkedAdd extLen 7) / 8 * 8
    let pos ← checkedAdd dataStart padded
    if data.length < dataEnd ∨ data.length ≤ pos then none
    scanExtensions data fuel pos

def backingFormatName [Target] (data : List UInt8) (version : Nat) : Option String :=
  let pos := if version = 3 then max (beU32 data 100) minHeaderSize else minHeaderSize
  scanExtensions data 64 pos

def Qcow2Info.parse [Target] (data : List UInt8) : Except Qcow2Error Qcow2Info :=
  if data.length < minHeaderSize then .error .fileTooSmall
  else if beU32 data 0 ≠ magic then .error .badMagic
  else
    let version := beU32 data 4
    if version = 1 then
      -- QCOW1 shares the magic and the fields at 8, 16 and 24 only
      .ok
        { version
          clusterBits := 0
          virtualDiskSize := beU64 data 24
          l1Size := 0
          hasBackingFile := beU64 data 8 ≠ 0
          encryptionMethod := beU32 data 36
          snapshotCount := 0
          incompatibleFeatures := 0
          backingFile := backingFileName data
          backingFormat := none }
    else if ¬ (2 ≤ version ∧ version ≤ 3) then .error (.unsupportedVersion version)
    else
      .ok
        { version
          clusterBits := beU32 data 20
          virtualDiskSize := beU64 data 24
          l1Size := beU32 data 36
          hasBackingFile := beU64 data 8 ≠ 0
          encryptionMethod := beU32 data 32
          snapshotCount := beU32 data 60
          incompatibleFeatures := if version = 3 ∧ 80 ≤ data.length then beU64 data 72 else 0
          backingFile := backingFileName data
          backingFormat := backingFormatName data version }

theorem Qcow2Info.parse_ok {data : List UInt8} {i : Qcow2Info} (he : parse data = .ok i) :
    72 ≤ data.length ∧ beU32 data 0 = magic ∧ 1 ≤ beU32 data 4 ∧ beU32 data 4 ≤ 3 := by
  simp only [parse, minHeaderSize] at he
  split_ifs at he with hlen hmagic hone hversion <;>
    exact ⟨by omega, by simpa using hmagic, by omega, by omega⟩

/-- The first 72 bytes of a header with the given fields and zeros elsewhere, in the
order of its fields. -/
def headerBytes (version clusterBits diskSize l1Size l1TableOffset refcountTableOffset
    refcountTableClusters : Nat) : List UInt8 :=
  beBytes 4 magic ++ beBytes 4 version ++ beBytes 8 0 ++ beBytes 4 0 ++ beBytes 4 clusterBits ++
    beBytes 8 diskSize ++ beBytes 4 0 ++ beBytes 4 l1Size ++ beBytes 8 l1TableOffset ++
    beBytes 8 refcountTableOffset ++ beBytes 4 refcountTableClusters ++ List.replicate 12 0

/-- The bytes from 72 to 104 that version 3 adds. -/
def headerTail (incompatibleFeatures refcountOrder : Nat) : List UInt8 :=
  beBytes 8 incompatibleFeatures ++ List.replicate 16 0 ++ beBytes 4 refcountOrder ++ beBytes 4 104

@[simp] theorem length_headerBytes (v b d n o r k : Nat) :
    (headerBytes v b d n o r k).length = 72 := by
  simp [headerBytes]

@[simp] theorem length_headerTail (f order : Nat) : (headerTail f order).length = 32 := by
  simp [headerTail]

/-- A dirty disk of four clusters, one as it is, one compressed, one zero and one with a refcount
of 0, and two snapshots. The bytes `slack` mean nothing. -/
def evidenceImage (slack : UInt8) : List UInt8 :=
  ((headerBytes 3 9 2048 1 512 1536 1).take 60 ++ beBytes 4 2 ++ beBytes 8 4096 ++ headerTail 1 4 ++
    List.replicate 408 slack) ++
  (beBytes 8 1024 ++ List.replicate 504 0) ++
  (beFields [(8, 2 ^ 63 + 2560), (8, 2 ^ 62 + 3072), (8, 1), (8, 3584)] ++ List.replicate 480 0) ++
  (beBytes 8 2048 ++ List.replicate 504 0) ++
  (beArray 2 7 (fun _ => 1) ++ List.replicate 498 0) ++
  (List.replicate 512 0x41 ++ List.replicate 512 0x42 ++ List.replicate 512 0x43) ++
  (beFields [(12, 0), (2, 1), (2, 5), (4, 1700000000), (12, 0), (4, 4096), (4, 16)] ++
    List.replicate 16 7 ++ [0x31, 0x61, 0x6C, 0x70, 0x68, 0x61, 0, 0]) ++
  (beFields [(12, 0), (2, 1), (2, 2), (4, 1700000001), (12, 0), (4, 0), (4, 0)] ++ [0x32, 0xC3, 0xA9])

theorem length_evidenceImage (slack : UInt8) : (evidenceImage slack).length = 4203 := by
  simp only [evidenceImage, List.length_append, List.length_take, length_headerBytes, length_beBytes,
    length_headerTail, List.length_replicate, length_beFields, length_beArray, List.map_cons,
    List.map_nil, List.sum_cons, List.sum_nil, List.length_cons, List.length_nil]
  norm_num

def evidenceFile : Content :=
  ⟨evidenceImage 0, by rw [length_evidenceImage]; norm_num⟩

end Qcow2
