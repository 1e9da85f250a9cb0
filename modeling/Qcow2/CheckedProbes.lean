import Qcow2.Audit
import Qcow2.CheckedRefines
import Qcow2.HeaderAddressing
import Qcow2.RefcountAddressing

/-! The probes by path with every addition, subtraction, multiplication, shift, division and
slice checked, and the auditor that runs them. -/

namespace Qcow2

open StdIo

namespace Checked

section Bodies

variable {β : Type} [ReadSeek β]

/-- `read_window` and the slice of what it filled. -/
def readWindow (want : Nat) : EStateM (Trap IoError) β (List UInt8) := do
  let (buf, filled) ← fillInto want (List.replicate want 0) 0
  sliceIn buf 0 filled

/-- One `read` into a zeroed buffer and the slice of what it returned. -/
def readOnce (want : Nat) : EStateM (Trap IoError) β (List UInt8) := do
  let bs ← embed (ReadSeek.read want)
  sliceIn (overwrite (List.replicate want 0) 0 bs) 0 bs.length

def inspect (file : β) : Except (Trap Qcow2Error) Qcow2Info :=
  outcome <| (do
    let hdrBuf ← EStateM.adaptExcept (Trap.map .io) (readWindow 8192)
    Qcow2Info.parse hdrBuf : EStateM (Trap Qcow2Error) β Qcow2Info).run file

def readU64TableChecked (offset n : Nat) : EStateM (Trap Qcow2Error) β (List Nat) := do
  if n = 0 ∨ offset = 0 then
    return []
  let _ ← embed (io (ReadSeek.seek (.start offset)))
  let len ← mulIn 64 n 8
  let buf ← embed (io (readExact len))
  return beWords buf

def readU64Table (offset n : Nat) : EStateM (Trap Qcow2Error) β (List Nat) := do
  let table ← attemptIn (readU64TableChecked offset n)
  return table.getD []

def scanL2 (refcountTable : List Nat) (refcountBits clusterSize : Nat) :
    List Nat → Scan → EStateM (Trap Qcow2Error) β (Scan × Bool)
  | [], acc => return (acc, false)
  | l2Entry :: rest, acc => do
    if l2Entry &&& (1 <<< 62) ≠ 0 then
      scanL2 refcountTable refcountBits clusterSize rest acc
    else if l2Entry &&& 1 ≠ 0 then
      scanL2 refcountTable refcountBits clusterSize rest acc
    else
      let hostOffset := l2Entry &&& offsetMask
      if hostOffset = 0 then
        scanL2 refcountTable refcountBits clusterSize rest acc
      else
        let allocatedClusters ← addIn 64 acc.allocatedClusters 1
        if maxClustersScanned < allocatedClusters then
          return ({ acc with allocatedClusters }, true)
        check (clusterSize ≠ 0) ()
        let clusterIdx := hostOffset / clusterSize
        let refcount ← refcountOf refcountTable clusterIdx refcountBits clusterSize
        let orphanClusters ←
          addIn 64 acc.orphanClusters (if refcount = some 0 then 1 else 0)
        scanL2 refcountTable refcountBits clusterSize rest
          { allocatedClusters, orphanClusters, lookups := acc.lookups ++ [hostOffset] }

def scanL1 (refcountTable : List Nat) (refcountBits clusterSize : Nat) :
    List Nat → Scan → EStateM (Trap Qcow2Error) β Scan
  | [], acc => return acc
  | l1Entry :: rest, acc => do
    let l2Offset := l1Entry &&& offsetMask
    if l2Offset = 0 then
      scanL1 refcountTable refcountBits clusterSize rest acc
    else
      let l2 ← readU64Table l2Offset (asUsize (clusterSize / 8))
      let (acc, stopped) ← scanL2 refcountTable refcountBits clusterSize l2 acc
      if stopped then
        return acc
      scanL1 refcountTable refcountBits clusterSize rest acc

def refcountScan : EStateM (Trap Qcow2Error) β (Qcow2RefcountReport × List Nat) := do
  let hdr ← EStateM.adaptExcept (Trap.map .io) (readOnce 104)
  let h ← embed (fromResult (RefcountHeader.parse hdr))
  let clusterSize ← shlIn 64 1 h.clusterBits
  if 6 < h.refcountOrder then
    return (h.report 0 0, [])
  let refcountBits ← shlIn 32 1 h.refcountOrder
  let rtBytes ← mulIn 64 h.refcountTableClusters clusterSize
  let rtEntries := min (asUsize (rtBytes / 8)) maxL1Entries
  let refcountTable ← readU64TableChecked h.refcountTableOffset rtEntries
  let l1Table ← readU64Table h.l1TableOffset h.l1Entries
  let acc ← scanL1 refcountTable refcountBits clusterSize l1Table ⟨0, 0, []⟩
  return (h.report acc.allocatedClusters acc.orphanClusters, acc.lookups)

def refcountReport (file : β) : Except (Trap Qcow2Error) Qcow2RefcountReport :=
  (outcome (refcountScan.run file)).map Prod.fst

end Bodies

section Table

variable {β : Type} [FileSource β]

def readSnapshot : EStateM (Trap Qcow2Error) β (Option Qcow2Snapshot) := do
  match ← embed (attempt (readExact snapshotHeaderFixed)) with
  | none => return none
  | some fixed =>
    let idStrSize := min (beU16 fixed 12) maxStrLen
    let nameSize := min (beU16 fixed 14) maxStrLen
    let dateUnixSecs := beU32 fixed 16
    let dateNsecs := beU32 fixed 20
    let vmStateSize := beU32 fixed 32
    let extraDataSize := min (beU32 fixed 36) maxExtraData
    match ← embed (if 0 < extraDataSize then attempt (skip extraDataSize) else return some ()) with
    | none => return none
    | some () =>
      match ← embed (readString idStrSize) with
      | none => return none
      | some id =>
        match ← embed (readString nameSize) with
        | none => return none
        | some name =>
          let behindExtra ← addIn 64 snapshotHeaderFixed extraDataSize
          let behindId ← addIn 64 behindExtra idStrSize
          let consumed ← addIn 64 behindId nameSize
          let past ← subIn 8 (consumed % 8)
          let pad := past % 8
          let _ ← embed (if 0 < pad then attempt (skip pad) else return some ())
          return some { id, name, dateUnixSecs, dateNsecs, vmStateSize }

def readSnapshots : Nat → EStateM (Trap Qcow2Error) β (List Qcow2Snapshot)
  | 0 => return []
  | n + 1 => do
    match ← readSnapshot with
    | none => return []
    | some s => return s :: (← readSnapshots n)

def snapshotsOf : EStateM (Trap Qcow2Error) β (List Qcow2Snapshot) := do
  let hdr ← EStateM.adaptExcept (Trap.map .io) (readOnce 104)
  if hdr.length < minHeaderSize then
    throw (.error .fileTooSmall)
  if beU32 hdr 0 ≠ magic then
    throw (.error .badMagic)
  let nbSnapshots := min (beU32 hdr 60) maxSnapshots
  let snapshotsOffset := beU64 hdr 64
  if nbSnapshots = 0 ∨ snapshotsOffset = 0 then
    return []
  let _ ← embed (io (ReadSeek.seek (.start snapshotsOffset)))
  readSnapshots nbSnapshots

def snapshots (file : β) : Except (Trap Qcow2Error) (List Qcow2Snapshot) :=
  outcome (snapshotsOf.run file)

def auditPath (file : β) : Except (Trap Qcow2Error) (List Qcow2Anomaly) := do
  let info ← inspect file
  let snapshots ← snapshots file
  let report ← refcountReport file
  return audit info ++ auditSnapshots snapshots ++ (auditOrphans report).toList

end Table

section Agreement

variable {β : Type} [ReadSeek β]

theorem readWindow_agrees (hread : ReadsWithin β) {n : Nat} (hn : n < 2 ^ 64) (b : β) :
    Agrees (readWindow n) (Qcow2.readWindow n) b := by
  rw [← bind_pure (Qcow2.readWindow n)]
  refine Agrees.bind_map (fill_agrees hread hn b) ?_
  intro bs t hrun
  have hbs : bs.length ≤ n := fillLoop_ends hread n n b bs t hrun
  dsimp only
  rw [filled_window hbs]
  exact Agrees.pure _ _

theorem readOnce_agrees (hread : ReadsWithin β) (n : Nat) (b : β) :
    Agrees (readOnce n) (ReadSeek.read n) b := by
  rw [← bind_pure (ReadSeek.read n)]
  refine Agrees.bind (Agrees.embed (ReadSeek.read n) b) ?_
  intro bs t hrun
  rw [filled_window (hread n b t bs hrun)]
  exact Agrees.pure _ _

theorem inspect_eq (hread : ReadsWithin β) (file : β) :
    inspect file = (Qcow2.inspect file).mapError .error := by
  have hwindow := (readWindow_agrees hread (show 8192 < 2 ^ 64 by decide) file).adaptExcept
    Qcow2Error.io
  refine Agrees.outcome_eq (Agrees.bind hwindow ?_)
  intro hdrBuf t hrun
  have hlen : hdrBuf.length ≤ 8192 :=
    (fillLoop_ends hread 8192 8192).adaptExcept Qcow2Error.io file hdrBuf t hrun
  have hword : beU32 hdrBuf 100 < 2 ^ 32 := beUint_lt 4 hdrBuf 100
  rw [parse_passes (show 32 ≤ target64.usizeBits by decide)
    (show hdrBuf.length + 8 ≤ 2 ^ 64 by omega)
    (fun _ _ => show beU32 hdrBuf 100 + 8 < 2 ^ 64 by omega)]
  exact Agrees.embed _ _

theorem readU64TableChecked_agrees (offset : Nat) {n : Nat} (hn : n ≤ maxL1Entries) (b : β) :
    Agrees (readU64TableChecked offset n) (Qcow2.readU64TableChecked offset n) b := by
  have hmax : maxL1Entries = 2 ^ 20 := rfl
  have hload : io (readExactAt offset (n * 8) : EStateM IoError β (List UInt8)) =
      io (ReadSeek.seek (.start offset)) >>= fun _ => io (readExact (n * 8)) :=
    adaptExcept_bind _ _ _
  refine Agrees.ite (fun _ => Agrees.pure _ _) fun _ => ?_
  rw [hload, bind_assoc]
  refine Agrees.bind (Agrees.embed _ _) fun _ t _ => ?_
  rw [mulIn_of_lt (by omega), pure_bind]
  exact Agrees.bind (Agrees.embed _ _) fun buf u _ => Agrees.pure _ _

theorem readU64Table_agrees (offset : Nat) {n : Nat} (hn : n ≤ maxL1Entries) (b : β) :
    Agrees (readU64Table offset n) (Qcow2.readU64Table offset n) b :=
  Agrees.bind (readU64TableChecked_agrees offset hn b).attemptIn fun _ _ _ => Agrees.pure _ _

/-- The counters of a walk that has not left by its cap. -/
def InCap (acc : Scan) : Prop :=
  acc.allocatedClusters ≤ maxClustersScanned ∧ acc.orphanClusters ≤ acc.allocatedClusters

theorem inCap_next {acc : Scan} (h : InCap acc) (hcap : ¬ maxClustersScanned < acc.allocatedClusters + 1)
    (refcount : Option Nat) (o : Nat) :
    InCap { allocatedClusters := acc.allocatedClusters + 1
            orphanClusters := acc.orphanClusters + if refcount = some 0 then 1 else 0
            lookups := acc.lookups ++ [o] } := by
  obtain ⟨hallocated, horphans⟩ := h
  refine ⟨not_lt.mp hcap, ?_⟩
  dsimp only
  split <;> omega

theorem scanL2_inCap (refcountTable : List Nat) (refcountBits clusterSize : Nat) (l2 : List Nat)
    {acc : Scan} (hacc : InCap acc) :
    Ends (Qcow2.scanL2 refcountTable refcountBits clusterSize l2 acc :
      EStateM Qcow2Error β (Scan × Bool)) fun _ r _ => r.2 = false → InCap r.1 := by
  induction l2 generalizing acc with
  | nil => exact Ends.pure fun _ _ => hacc
  | cons l2Entry rest ih =>
    rw [Qcow2.scanL2]
    refine Ends.ite (fun _ => ih hacc) fun _ => Ends.ite (fun _ => ih hacc) fun _ => ?_
    dsimp only
    refine Ends.ite (fun _ => ih hacc) fun _ => Ends.ite (fun _ => ?_) fun hcap => ?_
    · exact Ends.pure fun _ hstopped => by cases hstopped
    · exact Ends.bind (P := fun _ _ _ => True) (fun _ _ _ _ => trivial)
        (fun refcount => ih (inCap_next hacc hcap refcount _)) fun _ _ _ _ _ _ hrest => hrest

theorem scanL2_agrees {order clusterBits : Nat} (horder : order ≤ 6)
    (hbits : 9 ≤ clusterBits ∧ clusterBits ≤ 20) (refcountTable l2 : List Nat) {acc : Scan}
    (hacc : InCap acc) (b : β) :
    Agrees (scanL2 refcountTable (1 <<< order) (1 <<< clusterBits) l2 acc)
      (Qcow2.scanL2 refcountTable (1 <<< order) (1 <<< clusterBits) l2 acc) b := by
  have hmax : maxClustersScanned = 2 ^ 24 := rfl
  induction l2 generalizing acc b with
  | nil => exact Agrees.pure _ _
  | cons l2Entry rest ih =>
    rw [scanL2, Qcow2.scanL2]
    refine Agrees.ite (fun _ => ih hacc b) fun _ => Agrees.ite (fun _ => ih hacc b) fun _ => ?_
    dsimp only
    refine Agrees.ite (fun _ => ih hacc b) fun _ => ?_
    obtain ⟨hallocated, horphans⟩ := hacc
    rw [addIn_of_lt (by omega), pure_bind]
    refine Agrees.ite (fun _ => Agrees.pure _ _) fun hcap => ?_
    rw [check_of (show 1 <<< clusterBits ≠ 0 by rw [Nat.one_shiftLeft]; positivity), pure_bind]
    refine Agrees.bind (refcountOf_agrees horder hbits refcountTable _ b) fun refcount t _ => ?_
    have hnext := inCap_next ⟨hallocated, horphans⟩ hcap refcount (l2Entry &&& offsetMask)
    have hle : acc.orphanClusters + (if refcount = some 0 then 1 else 0) ≤
        acc.allocatedClusters + 1 := hnext.2
    rw [addIn_of_lt (by omega), pure_bind]
    exact ih hnext t

theorem scanL1_agrees {order clusterBits : Nat} (horder : order ≤ 6)
    (hbits : 9 ≤ clusterBits ∧ clusterBits ≤ 20) (refcountTable l1Table : List Nat) {acc : Scan}
    (hacc : InCap acc) (b : β) :
    Agrees (scanL1 refcountTable (1 <<< order) (1 <<< clusterBits) l1Table acc)
      (Qcow2.scanL1 refcountTable (1 <<< order) (1 <<< clusterBits) l1Table acc) b := by
  have hentries : asUsize (1 <<< clusterBits / 8) ≤ maxL1Entries := by
    have hpow : 2 ^ clusterBits ≤ 2 ^ 20 := Nat.pow_le_pow_right (by omega) hbits.2
    have hmax : maxL1Entries = 2 ^ 20 := rfl
    rw [Nat.one_shiftLeft, asUsize_of_lt (by omega)]
    omega
  induction l1Table generalizing acc b with
  | nil => exact Agrees.pure _ _
  | cons l1Entry rest ih =>
    rw [scanL1, Qcow2.scanL1]
    dsimp only
    refine Agrees.ite (fun _ => ih hacc b) fun _ => ?_
    refine Agrees.bind (readU64Table_agrees _ hentries b) fun l2 t _ => ?_
    refine Agrees.bind (scanL2_agrees horder hbits refcountTable l2 hacc t) fun r u hrun => ?_
    have hinCap := scanL2_inCap refcountTable _ _ l2 hacc t r u hrun
    cases hstopped : r.2 with
    | true => simpa [hstopped] using Agrees.pure _ _
    | false => simpa [hstopped] using ih (hinCap hstopped) u

theorem refcountScan_agrees (hread : ReadsWithin β) (b : β) :
    Agrees refcountScan Qcow2.refcountScan b := by
  unfold refcountScan Qcow2.refcountScan
  refine Agrees.bind ((readOnce_agrees hread 104 b).adaptExcept Qcow2Error.io) fun hdr t _ => ?_
  refine Agrees.bind (Agrees.embed _ _) fun h u hrun => ?_
  have hbytes : h.refcountTableClusters * 2 ^ h.clusterBits < 2 ^ 64 := by
    rw [run_fromResult] at hrun
    cases hp : RefcountHeader.parse hdr with
    | error e => simp [hp] at hrun
    | ok h' =>
      rw [hp] at hrun
      cases hrun
      have hle := RefcountHeader.tableBytes_le hp
      rw [RefcountHeader.clusterSize, Nat.one_shiftLeft] at hle
      omega
  obtain ⟨hlow, hhigh⟩ := h.clusterBits_range
  have hinit : InCap ⟨0, 0, []⟩ := ⟨Nat.zero_le _, le_rfl⟩
  rw [shlIn_one (by omega), pure_bind]
  refine Agrees.ite (fun _ => Agrees.pure _ _) fun horder => ?_
  rw [shlIn_one (by omega), pure_bind, mulIn_of_lt hbytes, pure_bind, ← Nat.one_shiftLeft,
    ← Nat.one_shiftLeft]
  refine Agrees.bind (readU64TableChecked_agrees _ (Nat.min_le_right _ _) u)
    fun refcountTable v _ => ?_
  refine Agrees.bind (readU64Table_agrees _ (Nat.min_le_right _ _) v) fun l1Table w _ => ?_
  exact Agrees.bind (scanL1_agrees (by omega) h.clusterBits_range refcountTable l1Table hinit w)
    fun acc x _ => Agrees.pure _ _

end Agreement

section TableAgreement

variable {β : Type} [FileSource β]

theorem readSnapshot_agrees (b : β) : Agrees readSnapshot Qcow2.readSnapshot b := by
  unfold readSnapshot Qcow2.readSnapshot
  refine Agrees.bind (Agrees.embed _ _) fun fixed t _ => ?_
  cases fixed with
  | none => exact Agrees.pure _ _
  | some fixed =>
    dsimp only
    refine Agrees.bind (Agrees.embed _ _) fun skipped u _ => ?_
    cases skipped with
    | none => exact Agrees.pure _ _
    | some _ =>
      refine Agrees.bind (Agrees.embed _ _) fun id v _ => ?_
      cases id with
      | none => exact Agrees.pure _ _
      | some id =>
        refine Agrees.bind (Agrees.embed _ _) fun name w _ => ?_
        cases name with
        | none => exact Agrees.pure _ _
        | some name =>
          have hid : min (beU16 fixed 12) maxStrLen ≤ 65536 := Nat.min_le_right _ _
          have hname : min (beU16 fixed 14) maxStrLen ≤ 65536 := Nat.min_le_right _ _
          have hextra : min (beU32 fixed 36) maxExtraData ≤ 65536 := Nat.min_le_right _ _
          have hfixed : snapshotHeaderFixed = 40 := rfl
          dsimp only
          rw [addIn_of_lt (by omega), pure_bind, addIn_of_lt (by omega), pure_bind,
            addIn_of_lt (by omega), pure_bind, subIn_of_le (by omega), pure_bind]
          exact Agrees.bind (Agrees.embed _ _) fun _ _ _ => Agrees.pure _ _

theorem readSnapshots_agrees (n : Nat) (b : β) :
    Agrees (readSnapshots n) (Qcow2.readSnapshots n) b := by
  induction n generalizing b with
  | zero => exact Agrees.pure _ _
  | succ n ih =>
    refine Agrees.bind (readSnapshot_agrees b) fun s t _ => ?_
    cases s with
    | none => exact Agrees.pure _ _
    | some s => exact Agrees.bind (ih t) fun _ _ _ => Agrees.pure _ _

theorem snapshotsOf_agrees (hread : ReadsWithin β) (b : β) :
    Agrees snapshotsOf Qcow2.snapshotsOf b := by
  unfold snapshotsOf Qcow2.snapshotsOf
  refine Agrees.bind ((readOnce_agrees hread 104 b).adaptExcept Qcow2Error.io) fun hdr t _ => ?_
  refine Agrees.ite (fun _ => rfl) fun _ => Agrees.ite (fun _ => rfl) fun _ => ?_
  refine Agrees.ite (fun _ => Agrees.pure _ _) fun _ => ?_
  exact Agrees.bind (Agrees.embed _ _) fun _ u _ => readSnapshots_agrees _ u

end TableAgreement

end Checked

/-- Whatever the file holds and however it is read, the auditor and the three probes it runs
pass every check, and end as without the checks. -/
theorem audit_never_panics {β : Type} [FileSource β] (hread : ReadsWithin β) (file : β) :
    Checked.auditPath file ≠ .error .panic ∧
      Checked.auditPath file = (auditPath file).mapError .error ∧
      Checked.inspect file = (inspect file).mapError .error ∧
      Checked.snapshots file = (snapshots file).mapError .error ∧
      Checked.refcountReport file = (refcountReport file).mapError .error := by
  have hinspect := Checked.inspect_eq hread file
  have hsnapshots : Checked.snapshots file = (snapshots file).mapError .error :=
    (Checked.snapshotsOf_agrees hread file).outcome_eq
  have hreport : Checked.refcountReport file = (refcountReport file).mapError .error := by
    rw [Checked.refcountReport, (Checked.refcountScan_agrees hread file).outcome_eq, refcountReport]
    cases outcome (refcountScan.run file) <;> rfl
  have haudit : Checked.auditPath file = (auditPath file).mapError .error := by
    simp only [Checked.auditPath, auditPath, hinspect, hsnapshots, hreport]
    cases inspect file with
    | error e => rfl
    | ok info =>
      cases snapshots file with
      | error e => rfl
      | ok l => cases refcountReport file <;> rfl
  refine ⟨?_, haudit, hinspect, hsnapshots, hreport⟩
  rw [haudit]
  cases auditPath file <;> simp [Except.mapError]

theorem readsWithin_file : ReadsWithin File := by
  intro n b b' bs hrun
  cases hrun
  exact length_slice_le _ _ _

theorem audit_never_panics_sample :
    Checked.auditPath (File.opened evidenceFile) = .ok [.internalSnapshots 2, .dirty,
        .snapshot "alpha" 1700000000, .snapshot "é" 1700000001, .orphanClusters 1 2] ∧
      Checked.auditPath (File.opened evidenceFile) ≠ .error .panic := by
  obtain ⟨hpanic, heq, -⟩ := audit_never_panics readsWithin_file (File.opened evidenceFile)
  have haudit : auditPath (File.opened evidenceFile) = .ok [.internalSnapshots 2, .dirty,
      .snapshot "alpha" 1700000000, .snapshot "é" 1700000001, .orphanClusters 1 2] := by
    decide +kernel
  refine ⟨?_, hpanic⟩
  rw [heq, haudit]
  rfl

end Qcow2
