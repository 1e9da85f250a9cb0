import Qcow2.Header

/-! Enumeration of the internal snapshot table. -/

namespace Qcow2

open StdIo

structure Qcow2Snapshot where
  id : String
  name : String
  dateUnixSecs : Nat
  dateNsecs : Nat
  vmStateSize : Nat
  deriving DecidableEq

def maxSnapshots : Nat := 65536

def maxStrLen : Nat := 65536

def maxExtraData : Nat := 65536

/-- The fixed part of a record: its sizes are `u16` at 12 and 14 and `u32` at 36. -/
def snapshotHeaderFixed : Nat := 40

section

variable {β : Type} [FileSource β]

/-- Advance within the file only: a skip that would land past its end is refused. -/
def skip (n : Nat) : EStateM IoError β Unit := do
  let len ← FileSource.fileLen
  let pos ← ReadSeek.seek (.current 0)
  let target := min (pos + n) (2 ^ 64 - 1)
  if len < target then
    throw ⟨.unexpectedEof, "snapshot record extends past end of file"⟩
  let _ ← ReadSeek.seek (.start target)

def readString (len : Nat) : EStateM Qcow2Error β (Option String) := do
  if len = 0 then
    return some ""
  match ← attempt (readExact len) with
  | none => return none
  | some buf => return some (fromUtf8Lossy buf)

/-- One pass of the loop; `none` is its `break`. -/
def readSnapshot : EStateM Qcow2Error β (Option Qcow2Snapshot) := do
  match ← attempt (readExact snapshotHeaderFixed) with
  | none => return none
  | some fixed =>
    let idStrSize := min (beU16 fixed 12) maxStrLen
    let nameSize := min (beU16 fixed 14) maxStrLen
    let dateUnixSecs := beU32 fixed 16
    let dateNsecs := beU32 fixed 20
    let vmStateSize := beU32 fixed 32
    let extraDataSize := min (beU32 fixed 36) maxExtraData
    match ← (if 0 < extraDataSize then attempt (skip extraDataSize) else return some ()) with
    | none => return none
    | some () =>
      match ← readString idStrSize with
      | none => return none
      | some id =>
        match ← readString nameSize with
        | none => return none
        | some name =>
          let consumed := snapshotHeaderFixed + extraDataSize + idStrSize + nameSize
          let pad := (8 - consumed % 8) % 8
          -- the padding of the last record may be missing
          let _ ← (if 0 < pad then attempt (skip pad) else return some ())
          return some { id, name, dateUnixSecs, dateNsecs, vmStateSize }

def readSnapshots : Nat → EStateM Qcow2Error β (List Qcow2Snapshot)
  | 0 => return []
  | n + 1 => do
    match ← readSnapshot with
    | none => return []
    | some s => return s :: (← readSnapshots n)

/-- `snapshots`, from the opened file on. -/
def snapshotsOf : EStateM Qcow2Error β (List Qcow2Snapshot) := do
  let hdr ← io (ReadSeek.read 104)
  if hdr.length < minHeaderSize then
    throw .fileTooSmall
  if beU32 hdr 0 ≠ magic then
    throw .badMagic
  let nbSnapshots := min (beU32 hdr 60) maxSnapshots
  let snapshotsOffset := beU64 hdr 64
  if nbSnapshots = 0 ∨ snapshotsOffset = 0 then
    return []
  let _ ← io (ReadSeek.seek (.start snapshotsOffset))
  readSnapshots nbSnapshots

def snapshots (file : β) : Except Qcow2Error (List Qcow2Snapshot) := outcome (snapshotsOf.run file)

end

section Header

variable {β : Type} [FileSource β] {c : Content} {b b' : β}

theorem snapshots_header {m : Nat} (hread : (ReadSeek.read 104).run b = .ok (slice c.1 0 m) b')
    (hm : 72 ≤ m) (hlen : 72 ≤ c.1.length) (hmagic : beAt c.1 0 4 = magic) :
    snapshots b =
      if beAt c.1 60 4 = 0 ∨ beAt c.1 64 8 = 0 then .ok []
      else outcome ((do
        let _ ← io (ReadSeek.seek (.start (beAt c.1 64 8)))
        readSnapshots (min (beAt c.1 60 4) maxSnapshots)).run b') := by
  have hwindow := length_slice c.1 0 m
  have hio : (io (ReadSeek.read 104)).run b = .ok (slice c.1 0 m) b' :=
    run_io (o := .ok (slice c.1 0 m)) hread
  have hlong : ¬ (slice c.1 0 m).length < minHeaderSize := by
    rw [minHeaderSize]
    omega
  have hmagic' : ¬ beU32 (slice c.1 0 m) 0 ≠ magic :=
    not_not.mpr ((beUint_header hm hlen (by omega)).trans hmagic)
  have hcount : beU32 (slice c.1 0 m) 60 = beAt c.1 60 4 := beUint_header hm hlen (by omega)
  have hoff : beU64 (slice c.1 0 m) 64 = beAt c.1 64 8 := beUint_header hm hlen (by omega)
  have hnone : min (beAt c.1 60 4) maxSnapshots = 0 ↔ beAt c.1 60 4 = 0 := by
    have hmax : maxSnapshots = 65536 := rfl
    omega
  unfold snapshots snapshotsOf
  simp only [EStateM.run_bind, hio, if_neg hlong, if_neg hmagic', hcount, hoff, hnone]
  split_ifs <;> rfl

theorem seek_table {cursor : β → Nat → Prop} {p off : Nat} (S : ServesFile c cursor) (hb : cursor b p)
    (hoff : off < 2 ^ 63) (n : Nat) :
    ∃ f, cursor f off ∧
      (do let _ ← io (ReadSeek.seek (.start off))
          readSnapshots n).run b = (readSnapshots n).run f := by
  obtain ⟨f, hf, hseek⟩ := S.seek_ok off hb (by simpa using hoff)
  have hio : (io (ReadSeek.seek (.start off))).run b = .ok off f := run_io (o := .ok off) hseek
  exact ⟨f, hf, by rw [EStateM.run_bind, hio]⟩

end Header

/-- A header whose snapshot table has `count` records at `offset`. -/
def snapshotHeader (version count offset : Nat) : List UInt8 :=
  (headerBytes version 9 512 0 0 0 0).take 60 ++ beBytes 4 count ++ beBytes 8 offset

@[simp] theorem length_snapshotHeader (version count offset : Nat) :
    (snapshotHeader version count offset).length = 72 := by
  simp [snapshotHeader]

/-- One record with no extra data, no id and no name, right behind its header. -/
def oneRecordImage (version : Nat) : Content :=
  ⟨snapshotHeader version 1 72 ++ List.replicate 40 0, by simp⟩

section Total

variable {β : Type} [FileSource β]

theorem readString_total (len : Nat) :
    Total (readString len : EStateM Qcow2Error β (Option String)) := by
  refine Total.ite (Total.pure _) (Total.bind (Total.attempt _) ?_)
  intro o
  cases o with
  | none => exact Total.pure _
  | some buf => exact Total.pure _

theorem readSnapshot_total :
    Total (readSnapshot : EStateM Qcow2Error β (Option Qcow2Snapshot)) := by
  refine Total.bind (Total.attempt _) ?_
  intro o
  cases o with
  | none => exact Total.pure _
  | some fixed =>
    refine Total.bind (Total.ite (Total.attempt _) (Total.pure _)) ?_
    intro o
    cases o with
    | none => exact Total.pure _
    | some u =>
      refine Total.bind (readString_total _) ?_
      intro o
      cases o with
      | none => exact Total.pure _
      | some id =>
        refine Total.bind (readString_total _) ?_
        intro o
        cases o with
        | none => exact Total.pure _
        | some name =>
          exact Total.bind (Total.ite (Total.attempt _) (Total.pure _)) fun _ => Total.pure _

theorem readSnapshots_total (n : Nat) :
    Total (readSnapshots n : EStateM Qcow2Error β (List Qcow2Snapshot)) := by
  induction n with
  | zero => exact Total.pure _
  | succ n ih =>
    refine Total.bind readSnapshot_total ?_
    intro o
    cases o with
    | none => exact Total.pure _
    | some s => exact Total.bind ih fun _ => Total.pure _

end Total

end Qcow2
