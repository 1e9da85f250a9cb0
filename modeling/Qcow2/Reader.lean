import Qcow2.Header

/-! The strict reader: opening an image, resolving a guest offset through the two
tables, and the `Read` and `Seek` implementations. -/

namespace Qcow2

open StdIo

/-- flate2's raw decoder run to its end over a window: the bytes it produced, or
the text of its error. -/
abbrev Inflate := List UInt8 → Except String (List UInt8)

theorem two_pow_sub_three {n : Nat} (h : 9 ≤ n) : 2 ^ n / 8 = 2 ^ (n - 3) := by
  rw [show (8 : Nat) = 2 ^ 3 from rfl, Nat.pow_div (by omega) (by omega)]

/-- The fields of the reader that opening fixes. The source does not store
`clusterBits` but recovers it as the trailing zeros of `clusterSize`. -/
structure Layout where
  clusterBits : Nat
  virtualDiskSize : Nat
  clusterSize : Nat
  l1Table : List Nat
  l2Bits : Nat
  l2Mask : Nat
  clusterBits_range : 9 ≤ clusterBits ∧ clusterBits ≤ 20
  virtualDiskSize_lt : virtualDiskSize < 2 ^ 64
  clusterSize_eq : clusterSize = 2 ^ clusterBits
  l2Bits_eq : l2Bits = clusterBits - 3
  l2Mask_eq : l2Mask = 2 ^ (clusterBits - 3) - 1
  l1Table_lt : ∀ e ∈ l1Table, e < 2 ^ 64

/-- The fields as `from_backing` computes them from the header and the bytes of
the L1 table. -/
def Layout.ofHeader (hdr : Qcow2Header) (l1Buf : List UInt8) : Layout where
  clusterBits := hdr.clusterBits
  virtualDiskSize := hdr.diskSize
  clusterSize := 1 <<< hdr.clusterBits
  l1Table := beWords l1Buf
  l2Bits := hdr.clusterBits - 3
  l2Mask := (1 <<< hdr.clusterBits) / 8 - 1
  clusterBits_range := hdr.clusterBits_range
  virtualDiskSize_lt := hdr.diskSize_lt
  clusterSize_eq := Nat.one_shiftLeft _
  l2Bits_eq := rfl
  l2Mask_eq := by rw [Nat.one_shiftLeft, two_pow_sub_three hdr.clusterBits_range.1]
  l1Table_lt := fun _ => lt_of_mem_beWords

structure Qcow2Reader (β : Type) extends Layout where
  backing : β
  pos : Nat

inductive ClusterRef where
  | unallocated
  | zeroCluster
  | normal (clusterOffset : Nat)
  | compressed (fileOffset compressedBytes : Nat)
  deriving DecidableEq

def maxL1Entries : Nat := 1 <<< 20

section

variable {β : Type} [ReadSeek β] [Target]

def readWindow (want : Nat) : EStateM IoError β (List UInt8) := fill want

/-- `inspect`, from the opened file on. -/
def inspect (file : β) : Except Qcow2Error Qcow2Info :=
  outcome <| (do
    let hdrBuf ← io (readWindow 8192)
    fromResult (Qcow2Info.parse hdrBuf) : EStateM Qcow2Error β Qcow2Info).run file

/-- The body of `from_backing`, which returns the reader's fixed fields. -/
def loadLayout : EStateM Qcow2Error β Layout := do
  let hdrBuf ← io (readWindow 104)
  let hdr ← fromResult (Qcow2Header.parse hdrBuf)
  if maxL1Entries < hdr.l1Size then
    throw (.l1TableTooLarge hdr.l1Size)
  let l1Bytes := hdr.l1Size * 8
  let l1Buf ← io (readExactAt hdr.l1TableOffset (asUsize l1Bytes))
  return .ofHeader hdr l1Buf

/-- `from_backing`, behind `open`, `open_reader` and `from_reader`. -/
def fromBacking (backing : β) : Except Qcow2Error (Qcow2Reader β) :=
  match loadLayout.run backing with
  | .ok layout backing => .ok { layout with backing, pos := 0 }
  | .error e _ => .error e

namespace Qcow2Reader

def onBacking {α : Type} (x : EStateM IoError β α) : EStateM IoError (Qcow2Reader β) α :=
  zoom Qcow2Reader.backing (fun b r => { r with backing := b }) x

/-- The part of `cluster_ref_for` behind the read of the L2 entry. -/
def refOfEntry (clusterSize l2Entry : Nat) : ClusterRef :=
  if l2Entry &&& (1 <<< 62) ≠ 0 then
    let clusterBits := trailingZeros clusterSize
    let split := 63 - clusterBits
    let countMask := 1 <<< (clusterBits - 1) - 1
    let fileOffset := l2Entry &&& (1 <<< split - 1)
    let nbSectors := (l2Entry >>> split &&& countMask) + 1
    .compressed fileOffset (asUsize (nbSectors * 512))
  else if l2Entry &&& 1 ≠ 0 then .zeroCluster
  else
    let clusterOffset := l2Entry &&& 0x3FFFFFFFFFFFFFFF
    if clusterOffset = 0 then .unallocated else .normal clusterOffset

def clusterRefFor (virtualOffset : Nat) : EStateM IoError (Qcow2Reader β) ClusterRef := do
  let r ← get
  let clusterIdx := virtualOffset >>> trailingZeros r.clusterSize
  let l1Idx := asUsize (clusterIdx >>> r.l2Bits)
  let l2Idx := clusterIdx &&& r.l2Mask
  let l1Entry := (r.l1Table[l1Idx]?).getD 0
  let l2TableOffset := l1Entry &&& 0x7FFFFFFFFFFFFFFF
  if l2TableOffset = 0 then
    return .unallocated
  let l2Bytes ← onBacking (readExactAt (l2TableOffset + l2Idx * 8) 8)
  return refOfEntry r.clusterSize (beNat l2Bytes)

def padTo (clusterSize : Nat) (out : List UInt8) : List UInt8 :=
  out ++ List.replicate (clusterSize - out.length) 0

def deflateError (e : String) : IoError := ⟨.invalidData, "qcow2 deflate: " ++ e⟩

def decompressCluster (inflate : Inflate) (fileOffset compressedBytes : Nat) :
    EStateM IoError (Qcow2Reader β) (List UInt8) := do
  let r ← get
  let raw ← onBacking (fillAt fileOffset compressedBytes)
  let out ← fromResult ((inflate raw).mapError deflateError)
  return padTo (asUsize r.clusterSize) out

/-- The arms of `read`: `toRead` bytes of a resolved cluster, or what a single
read of the backing gives. -/
def readCluster (inflate : Inflate) (offsetInCluster toRead : Nat) :
    ClusterRef → EStateM IoError (Qcow2Reader β) (List UInt8)
  | .normal clusterOffset => do
    let _ ← onBacking (ReadSeek.seek (.start (clusterOffset + offsetInCluster)))
    onBacking (ReadSeek.read toRead)
  | .compressed fileOffset compressedBytes => do
    let decompressed ← decompressCluster inflate fileOffset compressedBytes
    return slice decompressed offsetInCluster toRead
  | .zeroCluster => return List.replicate toRead 0
  | .unallocated => return List.replicate toRead 0

/-- The bytes `read` puts at the front of a buffer of length `bufLen`. -/
def readBytes (inflate : Inflate) (bufLen : Nat) :
    EStateM IoError (Qcow2Reader β) (List UInt8) := do
  let r ← get
  if r.virtualDiskSize ≤ r.pos ∨ bufLen = 0 then
    return []
  let remainingVirtual := asUsize (r.virtualDiskSize - r.pos)
  let offsetInCluster := asUsize (r.pos &&& (r.clusterSize - 1))
  let remainingInCluster := asUsize r.clusterSize - offsetInCluster
  let toRead := min (min bufLen remainingVirtual) remainingInCluster
  let c ← clusterRefFor r.pos
  let bytes ← readCluster inflate offsetInCluster toRead c
  modify fun r => { r with pos := r.pos + bytes.length }
  return bytes

/-- `Read::read`: the count and the caller's buffer afterwards. -/
def read (inflate : Inflate) (buf : List UInt8) :
    EStateM IoError (Qcow2Reader β) (Nat × List UInt8) := do
  let bytes ← readBytes inflate buf.length
  return (bytes.length, bytes ++ buf.drop bytes.length)

def seekTarget (size pos : Nat) : SeekFrom → Int
  | .start n => asI64 n
  | .current n => i64Add (asI64 pos) n
  | .fromEnd n => i64Add (asI64 size) n

def seekBeforeStart : IoError := ⟨.invalidInput, "seek before start"⟩

def seek (s : SeekFrom) : EStateM IoError (Qcow2Reader β) Nat := do
  let r ← get
  let newPos := seekTarget r.virtualDiskSize r.pos s
  if newPos < 0 then
    throw seekBeforeStart
  set { r with pos := newPos.toNat }
  return newPos.toNat

end Qcow2Reader

end

end Qcow2
