import Qcow2.Reader

/-! The refcount report: the tables it loads, the walk over the active mapping, and
the lookup of one refcount. -/

namespace Qcow2

open StdIo

def maxClustersScanned : Nat := 16 <<< 20

structure Qcow2RefcountReport where
  refcountOrder : Nat
  refcountTableOffset : Nat
  refcountTableClusters : Nat
  allocatedClusters : Nat
  orphanClusters : Nat
  deriving DecidableEq

structure RefcountHeader where
  clusterBits : Nat
  l1Size : Nat
  l1TableOffset : Nat
  refcountTableOffset : Nat
  refcountTableClusters : Nat
  refcountOrder : Nat
  clusterBits_range : 9 ≤ clusterBits ∧ clusterBits ≤ 20

/-- The header checks at the start of `refcount_report`. -/
def RefcountHeader.parse (hdr : List UInt8) : Except Qcow2Error RefcountHeader :=
  if hdr.length < minHeaderSize then .error .fileTooSmall
  else if beU32 hdr 0 ≠ magic then .error .badMagic
  else
    let version := beU32 hdr 4
    if ¬ (2 ≤ version ∧ version ≤ 3) then .error (.unsupportedVersion version)
    else
      let clusterBits := beU32 hdr 20
      if hbits : 9 ≤ clusterBits ∧ clusterBits ≤ 20 then
        .ok
          { clusterBits
            l1Size := beU32 hdr 36
            l1TableOffset := beU64 hdr 40
            refcountTableOffset := beU64 hdr 48
            refcountTableClusters := beU32 hdr 56
            refcountOrder := if version = 3 ∧ 100 ≤ hdr.length then beU32 hdr 96 else 4
            clusterBits_range := hbits }
      else .error (.clusterBitsOutOfRange clusterBits)

namespace RefcountHeader

variable (h : RefcountHeader)

def clusterSize : Nat := 1 <<< h.clusterBits

def refcountBits : Nat := 1 <<< h.refcountOrder

def rtEntries [Target] : Nat := min (asUsize (h.refcountTableClusters * h.clusterSize / 8)) maxL1Entries

def l1Entries : Nat := min h.l1Size maxL1Entries

def report (allocatedClusters orphanClusters : Nat) : Qcow2RefcountReport where
  refcountOrder := h.refcountOrder
  refcountTableOffset := h.refcountTableOffset
  refcountTableClusters := h.refcountTableClusters
  allocatedClusters := allocatedClusters
  orphanClusters := orphanClusters

end RefcountHeader

def offsetMask : Nat := 0x00fffffffffffe00

section

variable {β : Type} [ReadSeek β]

def readU64TableChecked (offset n : Nat) : EStateM Qcow2Error β (List Nat) := do
  if n = 0 ∨ offset = 0 then
    return []
  let buf ← io (readExactAt offset (n * 8))
  return beWords buf

def readU64Table (offset n : Nat) : EStateM Qcow2Error β (List Nat) := do
  let table ← attempt (readU64TableChecked offset n)
  return table.getD []

def readAt (offset n : Nat) : EStateM Qcow2Error β (Option (List UInt8)) :=
  attempt (readExactAt offset n)

def refcountOf [Target] (refcountTable : List Nat) (clusterIdx refcountBits clusterSize : Nat) :
    EStateM Qcow2Error β (Option Nat) := do
  let refcountsPerBlock := clusterSize * 8 / refcountBits
  if refcountsPerBlock = 0 then
    return none
  let tableIdx := asUsize (clusterIdx / refcountsPerBlock)
  let blockIdx := clusterIdx % refcountsPerBlock
  match refcountTable[tableIdx]? with
  | none => return none
  | some entry =>
    let blockOffset := entry &&& (2 ^ 64 - 1 - (clusterSize - 1))
    if blockOffset = 0 then
      return some 0
    let bitOff := blockIdx * refcountBits
    let byteOff := blockOffset + bitOff / 8
    match refcountBits with
    | 8 => return (← readAt byteOff 1).map beNat
    | 16 => return (← readAt byteOff 2).map beNat
    | 32 => return (← readAt byteOff 4).map beNat
    | 64 => return (← readAt byteOff 8).map beNat
    | 1 | 2 | 4 =>
      let within := bitOff % 8
      let mask := 1 <<< refcountBits - 1
      -- packed from the most significant bit down
      let shift := 8 - within - refcountBits
      return (← readAt byteOff 1).map fun b => beNat b >>> shift &&& mask
    | _ => return none

/-- The counters of the walk. `lookups`, the host offsets whose refcount was looked
up, is kept for the proofs only. -/
structure Scan where
  allocatedClusters : Nat
  orphanClusters : Nat
  lookups : List Nat

/-- The inner loop over one L2 table. The flag says that it left by `break 'outer`. -/
def scanL2 [Target] (refcountTable : List Nat) (refcountBits clusterSize : Nat) :
    List Nat → Scan → EStateM Qcow2Error β (Scan × Bool)
  | [], acc => return (acc, false)
  | l2Entry :: rest, acc => do
    if l2Entry &&& (1 <<< 62) ≠ 0 then
      scanL2 refcountTable refcountBits clusterSize rest acc
    else if l2Entry &&& 1 ≠ 0 then
      scanL2 refcountTable refcountBits clusterSize rest acc
    else
      let hostOffset := l2Entry &&& offsetMask
      if hostOffset = 0 then
        scanL2 refcountTable refcountBits clusterSize rest acc
      else
        let allocatedClusters := acc.allocatedClusters + 1
        if maxClustersScanned < allocatedClusters then
          return ({ acc with allocatedClusters }, true)
        let clusterIdx := hostOffset / clusterSize
        let refcount ← refcountOf refcountTable clusterIdx refcountBits clusterSize
        scanL2 refcountTable refcountBits clusterSize rest
          { allocatedClusters
            orphanClusters := acc.orphanClusters + if refcount = some 0 then 1 else 0
            lookups := acc.lookups ++ [hostOffset] }

def scanL1 [Target] (refcountTable : List Nat) (refcountBits clusterSize : Nat) :
    List Nat → Scan → EStateM Qcow2Error β Scan
  | [], acc => return acc
  | l1Entry :: rest, acc => do
    let l2Offset := l1Entry &&& offsetMask
    if l2Offset = 0 then
      scanL1 refcountTable refcountBits clusterSize rest acc
    else
      let l2 ← readU64Table l2Offset (asUsize (clusterSize / 8))
      let (acc, stopped) ← scanL2 refcountTable refcountBits clusterSize l2 acc
      if stopped then
        return acc
      scanL1 refcountTable refcountBits clusterSize rest acc

/-- The body of `refcount_report` behind the opened file, with the lookups it made. -/
def refcountScan [Target] : EStateM Qcow2Error β (Qcow2RefcountReport × List Nat) := do
  let hdr ← io (ReadSeek.read 104)
  let h ← fromResult (RefcountHeader.parse hdr)
  if 6 < h.refcountOrder then
    return (h.report 0 0, [])
  let refcountTable ← readU64TableChecked h.refcountTableOffset h.rtEntries
  let l1Table ← readU64Table h.l1TableOffset h.l1Entries
  let acc ← scanL1 refcountTable h.refcountBits h.clusterSize l1Table ⟨0, 0, []⟩
  return (h.report acc.allocatedClusters acc.orphanClusters, acc.lookups)

def refcountReport [Target] (file : β) : Except Qcow2Error Qcow2RefcountReport :=
  (outcome (refcountScan.run file)).map Prod.fst

end

end Qcow2
