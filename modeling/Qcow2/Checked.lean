import Qcow2.Reader
import Qcow2.StdIo.Checked

/-! Opening and reading with every addition, subtraction, multiplication, shift and
slice of the source checked. -/

namespace Qcow2

open StdIo

/-- The fields of the source's reader that opening computes. -/
structure ReaderFields where
  virtualDiskSize : Nat
  clusterSize : Nat
  l1Table : List Nat
  l2Bits : Nat
  l2Mask : Nat

def Layout.fields (L : Layout) : ReaderFields where
  virtualDiskSize := L.virtualDiskSize
  clusterSize := L.clusterSize
  l1Table := L.l1Table
  l2Bits := L.l2Bits
  l2Mask := L.l2Mask

namespace Checked

variable {β : Type} [ReadSeek β]

/-- `from_backing`, up to the reader it builds from the fields. -/
def fromBacking : EStateM (Trap Qcow2Error) β ReaderFields := do
  let (hdrBuf, hdrRead) ←
    EStateM.adaptExcept (Trap.map .io) (fillInto 104 (List.replicate 104 0) 0)
  let window ← sliceIn hdrBuf 0 hdrRead
  let hdr ← embed (fromResult (Qcow2Header.parse window))
  let clusterSize ← shlIn 64 1 hdr.clusterBits
  let l2Entries := clusterSize / 8
  let l2Bits ← subIn hdr.clusterBits 3
  let l2Mask ← subIn l2Entries 1
  if maxL1Entries < hdr.l1Size then
    throw (.error (.l1TableTooLarge hdr.l1Size))
  let _ ← embed (io (ReadSeek.seek (.start hdr.l1TableOffset)))
  let l1Bytes ← mulIn 64 hdr.l1Size 8
  let l1Buf ← embed (io (readExact (asUsize l1Bytes)))
  return { virtualDiskSize := hdr.diskSize, clusterSize, l1Table := beWords l1Buf, l2Bits, l2Mask }

def refOfEntry (clusterSize l2Entry : Nat) : EStateM (Trap IoError) (Qcow2Reader β) ClusterRef := do
  if l2Entry &&& (1 <<< 62) ≠ 0 then
    let clusterBits := trailingZeros clusterSize
    let split ← subIn 63 clusterBits
    let countBits ← subIn clusterBits 1
    let countBit ← shlIn 64 1 countBits
    let countMask ← subIn countBit 1
    let offsetBit ← shlIn 64 1 split
    let offsetMask ← subIn offsetBit 1
    let fileOffset := l2Entry &&& offsetMask
    let count ← shrIn 64 l2Entry split
    let nbSectors ← addIn 64 (count &&& countMask) 1
    let compressedBytes ← mulIn 64 nbSectors 512
    return .compressed fileOffset (asUsize compressedBytes)
  else if l2Entry &&& 1 ≠ 0 then
    return .zeroCluster
  else
    let clusterOffset := l2Entry &&& 0x3FFFFFFFFFFFFFFF
    return if clusterOffset = 0 then .unallocated else .normal clusterOffset

def clusterRefFor (virtualOffset : Nat) : EStateM (Trap IoError) (Qcow2Reader β) ClusterRef := do
  let r ← get
  let clusterIdx ← shrIn 64 virtualOffset (trailingZeros r.clusterSize)
  let l1Idx ← shrIn 64 clusterIdx r.l2Bits
  let l2Idx := clusterIdx &&& r.l2Mask
  let l1Entry := (r.l1Table[asUsize l1Idx]?).getD 0
  let l2TableOffset := l1Entry &&& 0x7FFFFFFFFFFFFFFF
  if l2TableOffset = 0 then
    return .unallocated
  let l2Offset ← mulIn 64 l2Idx 8
  let l2EntryPos ← addIn 64 l2TableOffset l2Offset
  let l2Bytes ← embed (Qcow2Reader.onBacking (readExactAt l2EntryPos 8))
  refOfEntry r.clusterSize (beNat l2Bytes)

def decompressCluster (inflate : Inflate) (fileOffset compressedBytes : Nat) :
    EStateM (Trap IoError) (Qcow2Reader β) (List UInt8) := do
  let r ← get
  let (raw, filled) ← zoom Qcow2Reader.backing (fun b r => { r with backing := b }) (do
    let _ ← embed (ReadSeek.seek (.start fileOffset))
    fillInto compressedBytes (List.replicate compressedBytes 0) 0)
  let window ← sliceIn raw 0 filled
  let out ← embed (fromResult ((inflate window).mapError Qcow2Reader.deflateError))
  return Qcow2Reader.padTo (asUsize r.clusterSize) out

/-- The arms of `read`: the count and the caller's buffer afterwards. -/
def readCluster (inflate : Inflate) (buf : List UInt8) (offsetInCluster toRead : Nat) :
    ClusterRef → EStateM (Trap IoError) (Qcow2Reader β) (Nat × List UInt8)
  | .normal clusterOffset => do
    let fileOff ← addIn 64 clusterOffset offsetInCluster
    let _ ← embed (Qcow2Reader.onBacking (ReadSeek.seek (.start fileOff)))
    let dst ← sliceIn buf 0 toRead
    let bytes ← embed (Qcow2Reader.onBacking (ReadSeek.read dst.length))
    return (bytes.length, overwrite buf 0 bytes)
  | .compressed fileOffset compressedBytes => do
    let decompressed ← decompressCluster inflate fileOffset compressedBytes
    let stop ← addIn 64 offsetInCluster toRead
    let src ← sliceIn decompressed offsetInCluster stop
    let dst ← sliceIn buf 0 toRead
    -- `copy_from_slice` panics unless the lengths agree
    check (src.length = dst.length) ()
    return (toRead, overwrite buf 0 src)
  | .zeroCluster => do
    let dst ← sliceIn buf 0 toRead
    return (toRead, overwrite buf 0 (List.replicate dst.length 0))
  | .unallocated => do
    let dst ← sliceIn buf 0 toRead
    return (toRead, overwrite buf 0 (List.replicate dst.length 0))

def read (inflate : Inflate) (buf : List UInt8) :
    EStateM (Trap IoError) (Qcow2Reader β) (Nat × List UInt8) := do
  let r ← get
  if r.virtualDiskSize ≤ r.pos ∨ buf.length = 0 then
    return (0, buf)
  let remaining ← subIn r.virtualDiskSize r.pos
  let remainingVirtual := asUsize remaining
  let mask ← subIn r.clusterSize 1
  let offsetInCluster := asUsize (r.pos &&& mask)
  let remainingInCluster ← subIn (asUsize r.clusterSize) offsetInCluster
  let toRead := min (min buf.length remainingVirtual) remainingInCluster
  let c ← clusterRefFor r.pos
  let (n, buf) ← readCluster inflate buf offsetInCluster toRead c
  let r ← get
  let pos ← addIn 64 r.pos n
  set { r with pos }
  return (n, buf)

end Checked

end Qcow2
