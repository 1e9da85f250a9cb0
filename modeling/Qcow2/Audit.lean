import Qcow2.RefcountRefines
import Qcow2.Snapshots

/-! The one-step auditor: header findings, snapshot findings and the orphan finding,
each from its own probe of the file. -/

namespace Qcow2

open StdIo

def featDirty : Nat := 1 <<< 0

def featCorrupt : Nat := 1 <<< 1

def featExternalData : Nat := 1 <<< 2

inductive Qcow2Anomaly where
  | backingFile (name format : Option String)
  | encrypted (method : Nat)
  | internalSnapshots (count : Nat)
  | snapshot (name : String) (dateUnixSecs : Nat)
  | dirty
  | corrupt
  | externalDataFile
  | orphanClusters (count allocated : Nat)
  | legacyQcow1
  deriving DecidableEq

def pushIf (c : Bool) (a : Qcow2Anomaly) : List Qcow2Anomaly := if c then [a] else []

def audit (info : Qcow2Info) : List Qcow2Anomaly :=
  pushIf (info.version = 1) .legacyQcow1 ++
    pushIf info.hasBackingFile (.backingFile info.backingFile info.backingFormat) ++
    pushIf (info.encryptionMethod ≠ 0) (.encrypted info.encryptionMethod) ++
    pushIf (0 < info.snapshotCount) (.internalSnapshots info.snapshotCount) ++
    pushIf (info.incompatibleFeatures &&& featDirty ≠ 0) .dirty ++
    pushIf (info.incompatibleFeatures &&& featCorrupt ≠ 0) .corrupt ++
    pushIf (info.incompatibleFeatures &&& featExternalData ≠ 0) .externalDataFile

def auditSnapshots (snapshots : List Qcow2Snapshot) : List Qcow2Anomaly :=
  snapshots.map fun s => .snapshot s.name s.dateUnixSecs

def auditOrphans (report : Qcow2RefcountReport) : Option Qcow2Anomaly :=
  if report.orphanClusters = 0 then none
  else some (.orphanClusters report.orphanClusters report.allocatedClusters)

/-- `audit_path`. Each probe opens the file anew. -/
def auditPath {β : Type} [FileSource β] (file : β) : Except Qcow2Error (List Qcow2Anomaly) := do
  let info ← inspect file
  let snapshots ← snapshots file
  let report ← refcountReport file
  return audit info ++ auditSnapshots snapshots ++ (auditOrphans report).toList

theorem inspect_run {β : Type} [ReadSeek β] {c : Content} {cursor : β → Nat → Prop} {b : β}
    (S : Serves (Medium.file c) cursor) (hb : cursor b 0) :
    inspect b = Qcow2Info.parse (slice c.1 0 8192) := by
  obtain ⟨f, -, hrun⟩ := S.fill 8192 hb
  have hio : (io (readWindow 8192)).run b = .ok (slice c.1 0 8192) f :=
    run_io (o := .ok (slice c.1 0 8192)) hrun
  simp only [inspect, EStateM.run_bind, hio, run_fromResult, outcome_withState]

theorem inspect_opened (c : Content) :
    inspect (File.opened c) = Qcow2Info.parse (slice c.1 0 8192) :=
  inspect_run (serves_file c) (File.on_opened c)

theorem snapshots_ok {c : Content} (hlen : 72 ≤ c.1.length) (hmagic : beAt c.1 0 4 = magic)
    (hsnap : 0 < beAt c.1 60 4 → beAt c.1 64 8 ≤ c.1.length) :
    ∃ l, snapshots (File.opened c) = .ok l := by
  have hfile := c.2
  have hwindow := length_slice c.1 0 104
  have hat : File.On c ⟨c, (slice c.1 0 104).length⟩ (slice c.1 0 104).length :=
    ⟨rfl, rfl, by omega⟩
  rw [snapshots_header (File.read_opened c 104) (by omega) hlen hmagic]
  by_cases hnone : beAt c.1 60 4 = 0 ∨ beAt c.1 64 8 = 0
  · exact ⟨[], if_pos hnone⟩
  · have hle := hsnap (by omega)
    obtain ⟨f, -, hseek⟩ := seek_table (servesFile_file c) hat
      (show beAt c.1 64 8 < 2 ^ 63 by omega) (min (beAt c.1 60 4) maxSnapshots)
    obtain ⟨l, f', hrest⟩ := readSnapshots_total (min (beAt c.1 60 4) maxSnapshots) f
    rw [if_neg hnone, hseek, hrest]
    exact ⟨l, rfl⟩

/-- On a file whose header inspection accepts and whose refcount and snapshot tables
lie inside, the auditor keeps the header findings exactly for versions 2 and 3 with
cluster sizes the report accepts. -/
theorem header_findings_kept_iff {c : Content} {info : Qcow2Info}
    (hinfo : inspect (File.opened c) = .ok info)
    (hsnap : 0 < beAt c.1 60 4 → beAt c.1 64 8 ≤ c.1.length)
    (hrt : ∀ h, RefcountHeader.parse (slice c.1 0 104) = .ok h → ¬ RtOutside c h) :
    (∃ out, auditPath (File.opened c) = .ok out ∧ ∀ a ∈ audit info, a ∈ out) ↔
      (beAt c.1 4 4 = 2 ∨ beAt c.1 4 4 = 3) ∧ 9 ≤ beAt c.1 20 4 ∧ beAt c.1 20 4 ≤ 20 := by
  have hparse := (inspect_opened c).symm.trans hinfo
  obtain ⟨hlen', hmagic', hone, hthree⟩ := Qcow2Info.parse_ok hparse
  have hwindow := length_slice c.1 0 8192
  have hlen : 72 ≤ c.1.length := by omega
  have hf : ∀ {n off : Nat}, off + n ≤ 72 → beUint n (slice c.1 0 8192) off = beAt c.1 off n :=
    fun ho => beUint_header (by omega) hlen ho
  have hmagic : beAt c.1 0 4 = magic := (hf (by omega)).symm.trans hmagic'
  rw [beU32, hf (by omega)] at hone hthree
  obtain ⟨l, hl⟩ := snapshots_ok hlen hmagic hsnap
  have hheader := RefcountHeader.parse_isOk_iff hlen hmagic
  have haudit : auditPath (File.opened c) = (refcountReport (File.opened c)).map fun report =>
      audit info ++ auditSnapshots l ++ (auditOrphans report).toList := by
    simp only [auditPath, hinfo, hl, bind, Except.bind]
    cases refcountReport (File.opened c) <;> rfl
  rw [haudit]
  constructor
  · intro h
    obtain ⟨out, hout, -⟩ := h
    cases hr : refcountReport (File.opened c) with
    | error e => simp [hr, Except.map] at hout
    | ok report =>
      obtain ⟨h, hh⟩ := refcountReport_header hr
      obtain ⟨hversion, hbits⟩ := hheader.mp ⟨h, hh⟩
      exact ⟨by omega, hbits⟩
  · intro hcond
    obtain ⟨hversion, hbits⟩ := hcond
    obtain ⟨h, hh⟩ := hheader.mpr ⟨by omega, hbits⟩
    obtain ⟨report, hr⟩ := refcountReport_ok hh (.inr (hrt h hh))
    refine ⟨_, by rw [hr]; rfl, ?_⟩
    intro a ha
    exact List.mem_append_left _ (List.mem_append_left _ ha)

theorem header_findings_kept_iff_sample : ∃ info, inspect (File.opened evidenceFile) = .ok info ∧
    audit info = [.internalSnapshots 2, .dirty] ∧
    ((∃ out, auditPath (File.opened evidenceFile) = .ok out ∧ ∀ a ∈ audit info, a ∈ out) ↔
      (beAt evidenceFile.1 4 4 = 2 ∨ beAt evidenceFile.1 4 4 = 3) ∧
        9 ≤ beAt evidenceFile.1 20 4 ∧ beAt evidenceFile.1 20 4 ≤ 20) := by
  obtain ⟨info, hinfo, hfindings⟩ := exists_ok_map (x := inspect (File.opened evidenceFile))
    (f := audit) (b := [.internalSnapshots 2, .dirty]) (by decide +kernel)
  obtain ⟨h, hp, hoff, hentries⟩ : ∃ h, RefcountHeader.parse (slice evidenceFile.1 0 104) = .ok h ∧
      h.refcountTableOffset = 1536 ∧ h.rtEntries = 64 := by
    obtain ⟨h, hp, hfields⟩ := exists_ok_map (x := RefcountHeader.parse (slice evidenceFile.1 0 104))
      (f := fun h => (h.refcountTableOffset, h.rtEntries)) (b := (1536, 64)) (by decide +kernel)
    exact ⟨h, hp, Prod.mk.inj hfields⟩
  refine ⟨info, hinfo, hfindings, header_findings_kept_iff hinfo (by decide +kernel) ?_⟩
  intro h' hp' hout
  rw [hp] at hp'
  cases hp'
  have hlen : evidenceFile.1.length = 4203 := length_evidenceImage 0
  have hpast := hout.2.2
  omega

def bareHeader (version : Nat) : Content :=
  ⟨headerBytes version 9 512 0 0 0 0, by simp⟩

theorem legacy_finding_lost : ∃ info, inspect (File.opened (bareHeader 1)) = .ok info ∧
    Qcow2Anomaly.legacyQcow1 ∈ audit info ∧
    (beAt (bareHeader 1).1 36 4 = 0 ∧ beAt (bareHeader 1).1 56 4 = 0 ∧
      beAt (bareHeader 1).1 60 4 = 0) ∧
    auditPath (File.opened (bareHeader 1)) = .error (.unsupportedVersion 1) := by
  obtain ⟨info, hinfo, hone⟩ := exists_ok_map (x := inspect (File.opened (bareHeader 1)))
    (f := Qcow2Info.version) (b := 1) (by decide +kernel)
  exact ⟨info, hinfo, by simp [audit, pushIf, hone], by decide, by rfl⟩

end Qcow2
