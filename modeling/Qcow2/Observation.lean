import Qcow2.Findings
import Qcow2.HeaderAgreement

/-! The findings as the report model shows them, and what a whole report says of its file. -/

namespace Qcow2

open StdIo

inductive Severity where
  | low
  | medium
  | high
  deriving DecidableEq

inductive Location where
  | field (name : String)
  deriving DecidableEq

structure Evidence where
  field : String
  value : String
  location : Option Location
  deriving DecidableEq

namespace Qcow2Anomaly

def severity : Qcow2Anomaly → Severity
  | corrupt => .high
  | backingFile _ _ | encrypted _ | orphanClusters _ _ | externalDataFile => .medium
  | internalSnapshots _ | snapshot _ _ | legacyQcow1 | dirty => .low

def code : Qcow2Anomaly → String
  | backingFile _ _ => "QCOW2-BACKING-FILE"
  | encrypted _ => "QCOW2-ENCRYPTED"
  | internalSnapshots _ => "QCOW2-INTERNAL-SNAPSHOTS"
  | snapshot _ _ => "QCOW2-SNAPSHOT"
  | dirty => "QCOW2-DIRTY"
  | corrupt => "QCOW2-CORRUPT"
  | externalDataFile => "QCOW2-EXTERNAL-DATA"
  | orphanClusters _ _ => "QCOW2-ORPHAN-CLUSTERS"
  | legacyQcow1 => "QCOW2-QCOW1"

def note : Qcow2Anomaly → String
  | backingFile (some n) (some f) => "image references backing file `" ++ n ++ "` (format " ++ f ++
      ") — it is an overlay and does not alone contain the full guest data"
  | backingFile (some n) none => "image references backing file `" ++ n ++
      "` — it is an overlay and does not alone contain the full guest data"
  | backingFile none _ => "image references a backing file — it is an overlay and does not alone" ++
      " contain the full guest data"
  | encrypted method => "image is encrypted (method " ++ toString method ++
      ") — contents are inaccessible without the key"
  | internalSnapshots count => "image carries " ++ toString count ++
      " internal snapshot(s) — additional captured guest states to examine"
  | snapshot name dateUnixSecs => "internal snapshot `" ++ name ++ "` captured at unix time " ++
      toString dateUnixSecs ++ " — a recoverable point-in-time guest state to examine"
  | dirty => "the dirty bit is set — consistent with the image not having been closed cleanly" ++
      " (in use or crashed)"
  | corrupt => "the corrupt bit is set — QEMU flagged the image as corrupt"
  | externalDataFile => "image stores guest data in an external data file — the data is not" ++
      " self-contained"
  | orphanClusters count allocated => toString count ++ " of " ++ toString allocated ++
      " allocated cluster(s) are reachable through L1/L2 yet have a host refcount of 0" ++
      " — consistent with orphaned or deleted guest data left in the image"
  | legacyQcow1 => "image uses the legacy QCOW1 (version 1) format — an obsolete container" ++
      " predating QCOW2's refcounts, snapshots, and feature bits"

def headerEvidence (field value : String) : Evidence := ⟨field, value, some (.field "QCOW2 header")⟩

def evidence : Qcow2Anomaly → List Evidence
  | snapshot name dateUnixSecs =>
    [⟨"snapshot_name", name, some (.field "QCOW2 snapshot table")⟩,
      ⟨"date_unix_secs", toString dateUnixSecs, some (.field "QCOW2 snapshot table")⟩]
  | backingFile name format =>
    headerEvidence "backing_file" (name.getD "present") ::
      (format.map (headerEvidence "backing_format")).toList
  | encrypted method => [headerEvidence "crypt_method" (toString method)]
  | internalSnapshots count => [headerEvidence "nb_snapshots" (toString count)]
  | dirty => [headerEvidence "incompatible_features" "dirty"]
  | corrupt => [headerEvidence "incompatible_features" "corrupt"]
  | externalDataFile => [headerEvidence "incompatible_features" "external-data"]
  | orphanClusters count allocated =>
    [⟨"orphan_clusters", toString count, some (.field "QCOW2 refcount table")⟩,
      ⟨"allocated_clusters", toString allocated, some (.field "QCOW2 refcount table")⟩]
  | legacyQcow1 => [headerEvidence "version" "1"]

/-- A backing file without a name is shown like one that is called so. -/
def ShownAlike (a b : Qcow2Anomaly) : Prop :=
  ∃ format, a = .backingFile none format ∧ b = .backingFile (some "present") format

theorem evidence_eq_iff {a b : Qcow2Anomaly} :
    a.code = b.code ∧ a.evidence = b.evidence ↔ a = b ∨ ShownAlike a b ∨ ShownAlike b a := by
  cases a <;> cases b <;> simp [code, evidence, headerEvidence, ShownAlike]
  case backingFile.backingFile name format name' format' =>
    have hformat : (format.map (headerEvidence "backing_format")).toList =
        (format'.map (headerEvidence "backing_format")).toList ↔ format = format' := by
      cases format <;> cases format' <;> simp [headerEvidence]
    have hname : name.getD "present" = name'.getD "present" ↔ name = name' ∨
        name = none ∧ name' = some "present" ∨ name' = none ∧ name = some "present" := by
      cases name <;> cases name' <;> simp [eq_comm]
    rw [hformat, hname, @eq_comm _ format' format]
    tauto

theorem severity_eq_of_code {a b : Qcow2Anomaly} (h : a.code = b.code) : a.severity = b.severity := by
  cases a <;> cases b <;> first
    | rfl
    | exact absurd h (by simp only [code]; decide)

theorem getElem?_toList_append {s t : String} {k : Nat} (h : k < s.toList.length) :
    (s ++ t).toList[k]? = s.toList[k]? := by
  rw [String.toList_append, List.getElem?_append_left h]

/-- The note tells the two apart that the evidence does not. -/
theorem note_ne_of_shownAlike {a b : Qcow2Anomaly} (h : ShownAlike a b) : a.note ≠ b.note := by
  obtain ⟨format, rfl, rfl⟩ := h
  have hnone : (note (.backingFile none format)).toList[17]? = some 'a' := by
    change (_ ++ _ : String).toList[17]? = _
    rw [getElem?_toList_append (by simp only [String.reduceToList]; decide)]
    simp only [String.reduceToList]
    rfl
  have hsome : (note (.backingFile (some "present") format)).toList[17]? = some 'b' := by
    cases format with
    | none =>
      change (_ ++ _ ++ _ : String).toList[17]? = _
      rw [String.append_assoc, getElem?_toList_append (by simp only [String.reduceToList]; decide)]
      simp only [String.reduceToList]
      rfl
    | some f =>
      change (_ ++ _ ++ _ ++ _ ++ _ : String).toList[17]? = _
      rw [String.append_assoc, String.append_assoc, String.append_assoc,
        getElem?_toList_append (by simp only [String.reduceToList]; decide)]
      simp only [String.reduceToList]
      rfl
  intro hnote
  rw [hnote, hsome] at hnone
  cases hnone

def shown (a : Qcow2Anomaly) : String × List Evidence := (a.code, a.evidence)

theorem shown_eq_iff {a b : Qcow2Anomaly} :
    a.shown = b.shown ↔ a = b ∨ ShownAlike a b ∨ ShownAlike b a := by
  rw [shown, shown, Prod.mk.injEq, evidence_eq_iff]

theorem eq_of_shown {a b : Qcow2Anomaly} (hshown : a.shown = b.shown) (hnote : a.note = b.note) :
    a = b := by
  rcases shown_eq_iff.mp hshown with h | h | h
  · exact h
  · exact absurd hnote (note_ne_of_shownAlike h)
  · exact absurd hnote.symm (note_ne_of_shownAlike h)

def isSnapshot : Qcow2Anomaly → Bool
  | snapshot _ _ => true
  | _ => false

/-- What the strict reader does not open. -/
def refused : Qcow2Anomaly → Bool
  | backingFile _ _ | encrypted _ | externalDataFile => true
  | _ => false

/-- The order of a report, in which only snapshots repeat. -/
def reportCodes (snapshots : Nat) : List String :=
  ["QCOW2-BACKING-FILE", "QCOW2-ENCRYPTED", "QCOW2-INTERNAL-SNAPSHOTS", "QCOW2-DIRTY",
    "QCOW2-CORRUPT", "QCOW2-EXTERNAL-DATA"] ++ List.replicate snapshots "QCOW2-SNAPSHOT" ++
    ["QCOW2-ORPHAN-CLUSTERS"]

end Qcow2Anomaly

/-- What a report shows of its findings gives them back: code and evidence up to a backing file
whose name is missing, with their severities, and together with the notes exactly. -/
theorem report_read_back (out out' : List Qcow2Anomaly) :
    (out.map Qcow2Anomaly.shown = out'.map Qcow2Anomaly.shown ↔
      List.Forall₂ (fun a b => a = b ∨ a.ShownAlike b ∨ b.ShownAlike a) out out') ∧
    (out.map Qcow2Anomaly.shown = out'.map Qcow2Anomaly.shown →
      out.map Qcow2Anomaly.severity = out'.map Qcow2Anomaly.severity) ∧
    (out.map Qcow2Anomaly.shown = out'.map Qcow2Anomaly.shown ∧
      out.map Qcow2Anomaly.note = out'.map Qcow2Anomaly.note ↔ out = out') := by
  induction out generalizing out' with
  | nil => cases out' <;> simp
  | cons a out ih =>
    cases out' with
    | nil => simp
    | cons b out' =>
      obtain ⟨hshown, hseverity, hnote⟩ := ih out'
      simp only [List.map_cons, List.cons.injEq, List.forall₂_cons]
      refine ⟨?_, ?_, ?_⟩
      · rw [Qcow2Anomaly.shown_eq_iff, hshown]
      · intro h
        exact ⟨Qcow2Anomaly.severity_eq_of_code (congrArg Prod.fst h.1), hseverity h.2⟩
      · rw [← hnote]
        constructor
        · intro h
          exact ⟨Qcow2Anomaly.eq_of_shown h.1.1 h.2.1, h.1.2, h.2.2⟩
        · intro h
          exact ⟨⟨congrArg _ h.1, h.2.1⟩, congrArg _ h.1, h.2.2⟩

theorem auditPath_ok {β : Type} [FileSource β] {file : β} {out : List Qcow2Anomaly}
    (h : auditPath file = .ok out) : ∃ info l report, inspect file = .ok info ∧
      snapshots file = .ok l ∧ refcountReport file = .ok report ∧
      out = audit info ++ auditSnapshots l ++ (auditOrphans report).toList := by
  unfold auditPath at h
  cases hi : inspect file with
  | error e =>
    rw [hi] at h
    cases h
  | ok info =>
    cases hl : snapshots file with
    | error e =>
      rw [hi, hl] at h
      cases h
    | ok l =>
      cases hr : refcountReport file with
      | error e =>
        rw [hi, hl, hr] at h
        cases h
      | ok report =>
        rw [hi, hl, hr] at h
        exact ⟨info, l, report, rfl, rfl, rfl, (Except.ok.inj h).symm⟩

theorem mem_pushIf {c : Bool} {a b : Qcow2Anomaly} : b ∈ pushIf c a ↔ c = true ∧ b = a := by
  cases c <;> simp [pushIf]

theorem pushIf_codes (c : Bool) (a : Qcow2Anomaly) :
    ((pushIf c a).map Qcow2Anomaly.code).Sublist [a.code] := by
  cases c <;> simp [pushIf]

theorem audit_codes {info : Qcow2Info} (h : info.version ≠ 1) :
    ((audit info).map Qcow2Anomaly.code).Sublist ["QCOW2-BACKING-FILE", "QCOW2-ENCRYPTED",
      "QCOW2-INTERNAL-SNAPSHOTS", "QCOW2-DIRTY", "QCOW2-CORRUPT", "QCOW2-EXTERNAL-DATA"] := by
  have hnone : pushIf (decide (info.version = 1)) .legacyQcow1 = [] := by simp [pushIf, h]
  simp only [audit, hnone, List.nil_append, List.map_append]
  exact (((((pushIf_codes _ _).append (pushIf_codes _ _)).append (pushIf_codes _ _)).append
    (pushIf_codes _ _)).append (pushIf_codes _ _)).append (pushIf_codes _ _)

theorem auditSnapshots_codes (l : List Qcow2Snapshot) :
    (auditSnapshots l).map Qcow2Anomaly.code = List.replicate l.length "QCOW2-SNAPSHOT" := by
  rw [auditSnapshots, List.map_map]
  exact List.map_const' ..

theorem auditOrphans_codes (report : Qcow2RefcountReport) :
    ((auditOrphans report).toList.map Qcow2Anomaly.code).Sublist ["QCOW2-ORPHAN-CLUSTERS"] := by
  unfold auditOrphans
  split <;> simp [Qcow2Anomaly.code]

theorem countP_auditSnapshots (l : List Qcow2Snapshot) :
    (auditSnapshots l).countP Qcow2Anomaly.isSnapshot = l.length := by
  rw [auditSnapshots, List.countP_map]
  exact List.countP_eq_length.mpr fun _ _ => rfl

theorem isSnapshot_of_mem_audit {info : Qcow2Info} {a : Qcow2Anomaly} (h : a ∈ audit info) :
    a.isSnapshot = false := by
  simp only [audit, List.mem_append, mem_pushIf] at h
  rcases h with (((((⟨-, rfl⟩ | ⟨-, rfl⟩) | ⟨-, rfl⟩) | ⟨-, rfl⟩) | ⟨-, rfl⟩) | ⟨-, rfl⟩) | ⟨-, rfl⟩
  all_goals rfl

theorem mem_auditOrphans {report : Qcow2RefcountReport} {a : Qcow2Anomaly} :
    a ∈ (auditOrphans report).toList ↔ report.orphanClusters ≠ 0 ∧
      a = .orphanClusters report.orphanClusters report.allocatedClusters := by
  unfold auditOrphans
  split <;> simp_all

theorem countP_report (info : Qcow2Info) (l : List Qcow2Snapshot) (report : Qcow2RefcountReport) :
    (audit info ++ auditSnapshots l ++ (auditOrphans report).toList).countP
      Qcow2Anomaly.isSnapshot = l.length := by
  have hheader : (audit info).countP Qcow2Anomaly.isSnapshot = 0 :=
    List.countP_eq_zero.mpr fun a ha => by simp [isSnapshot_of_mem_audit ha]
  have horphans : (auditOrphans report).toList.countP Qcow2Anomaly.isSnapshot = 0 := by
    refine List.countP_eq_zero.mpr fun a ha => ?_
    obtain ⟨-, rfl⟩ := mem_auditOrphans.mp ha
    simp [Qcow2Anomaly.isSnapshot]
  rw [List.countP_append, List.countP_append, hheader, horphans, countP_auditSnapshots]
  omega

section Reports

variable {c : Content} {out : List Qcow2Anomaly}

theorem header_of_auditPath (h : auditPath (File.opened c) = .ok out) :
    72 ≤ c.1.length ∧ beAt c.1 0 4 = magic ∧ (beAt c.1 4 4 = 2 ∨ beAt c.1 4 4 = 3) ∧
      9 ≤ beAt c.1 20 4 ∧ beAt c.1 20 4 ≤ 20 := by
  obtain ⟨-, -, report, -, -, hreport, -⟩ := auditPath_ok h
  obtain ⟨hdr, hp⟩ := refcountReport_header hreport
  obtain ⟨hlen, hmagic, -⟩ := RefcountHeader.parse_ok hp
  obtain ⟨hversion, hbits⟩ := (RefcountHeader.parse_isOk_iff hlen hmagic).mp ⟨hdr, hp⟩
  exact ⟨hlen, hmagic, by omega, hbits⟩

theorem refcountReport_counts {report : Qcow2RefcountReport}
    (h : refcountReport (File.opened c) = .ok report) :
    report.orphanClusters ≤ report.allocatedClusters ∧
      report.orphanClusters ≤ maxClustersScanned ∧
      report.allocatedClusters ≤ maxClustersScanned + 1 := by
  obtain ⟨hdr, hp⟩ := refcountReport_header h
  rw [refcountReport_eq, scanOf, Medium.file_bytes, hp] at h
  by_cases hbig : 6 < hdr.refcountOrder
  · simp only [if_pos hbig, Except.map, Except.ok.injEq] at h
    subst h
    exact ⟨le_rfl, Nat.zero_le _, Nat.zero_le _⟩
  · simp only [if_neg hbig] at h
    cases ht : tableIn (Medium.file c) hdr.refcountTableOffset hdr.rtEntries with
    | error e =>
      rw [ht] at h
      cases h
    | ok refcountTable =>
      simp only [ht, Except.map, Except.ok.injEq] at h
      subst h
      simp only [RefcountHeader.report]
      have hcount := fun (p : Nat → Bool) (hosts : List Nat) =>
        (List.countP_le_length (p := p) (l := hosts.take maxClustersScanned)).trans
          (List.length_take_le' _ _)
      have hcap := fun (p : Nat → Bool) (hosts : List Nat) =>
        (List.countP_le_length (p := p) (l := hosts.take maxClustersScanned)).trans
          (List.length_take_le _ _)
      refine ⟨?_, hcap _ _, Nat.min_le_right _ _⟩
      exact Nat.le_min.mpr ⟨hcount _ _, (hcap _ _).trans (Nat.le_succ _)⟩

end Reports

/-- What holds of the findings of one report together. -/
structure Coherent (out : List Qcow2Anomaly) : Prop where
  ordered : (out.map Qcow2Anomaly.code).Sublist
    (Qcow2Anomaly.reportCodes (out.countP Qcow2Anomaly.isSnapshot))
  announced : 0 < out.countP Qcow2Anomaly.isSnapshot → ∃ count,
    .internalSnapshots count ∈ out ∧ out.countP Qcow2Anomaly.isSnapshot ≤ count
  orphans : ∀ count allocated, .orphanClusters count allocated ∈ out →
    0 < count ∧ count ≤ allocated ∧ count ≤ maxClustersScanned ∧ allocated ≤ maxClustersScanned + 1

/-- Whatever a file holds, a report on it lists its findings in one order and each kind once, names
no more snapshots than the header announces, and counts no orphan it did not examine. -/
theorem report_is_coherent {c : Content} {out : List Qcow2Anomaly}
    (h : auditPath (File.opened c) = .ok out) : Coherent out := by
  obtain ⟨hlen, hmagic, hversion, -⟩ := header_of_auditPath h
  obtain ⟨info, l, report, hinfo, hl, hreport, rfl⟩ := auditPath_ok h
  rw [inspect_opened] at hinfo
  obtain ⟨h4, -, -, -, -, -, h60, -⟩ := Qcow2Info.parse_fields hinfo (by omega)
  have hcounts := refcountReport_counts hreport
  have hle : l.length ≤ info.snapshotCount := by
    obtain ⟨-, -, hlist⟩ := recordsFrom_of_snapshots hl
    rw [h60, hlist]
    split_ifs
    · exact Nat.zero_le _
    · exact (length_recordsFrom_le _ _ _).trans (Nat.min_le_left _ _)
  refine ⟨?_, ?_, ?_⟩
  · rw [countP_report, List.map_append, List.map_append, auditSnapshots_codes]
    exact ((audit_codes (by omega)).append (List.Sublist.refl _)).append (auditOrphans_codes report)
  · rw [countP_report]
    intro hpos
    refine ⟨info.snapshotCount, List.mem_append_left _ (List.mem_append_left _ ?_), hle⟩
    have hcount : 0 < info.snapshotCount := by omega
    simp [audit, mem_pushIf, hcount]
  · intro count allocated hmem
    simp only [List.mem_append, auditSnapshots, List.mem_map, audit, mem_pushIf,
      mem_auditOrphans] at hmem
    simp only [reduceCtorEq, and_false, or_false, exists_false, false_or,
      Qcow2Anomaly.orphanClusters.injEq] at hmem
    omega

theorem report_is_coherent_sample : ∃ out,
    auditPath (File.opened (oneRecordImage 2)) = .ok out ∧ Coherent out := by
  obtain ⟨out, h⟩ := exists_ok (x := auditPath (File.opened (oneRecordImage 2))) (by decide +kernel)
  exact ⟨out, h, report_is_coherent h⟩

section Opening

variable {c : Content}

/-- A feature that keeps the reader from decoding and that no finding names. -/
def UndecodedFeature (c : Content) : Prop :=
  beAt c.1 4 4 = 3 ∧ 80 ≤ c.1.length ∧
    ((beAt c.1 72 8).testBit 3 = true ∨ (beAt c.1 72 8).testBit 4 = true)

structure L1Loadable (c : Content) : Prop where
  capped : beAt c.1 36 4 ≤ 2 ^ 20
  near : beAt c.1 40 8 < 2 ^ 63
  inside : 1 ≤ beAt c.1 36 4 → beAt c.1 40 8 + beAt c.1 36 4 * 8 ≤ c.1.length

theorem opened_iff : (∃ r, fromBacking (File.opened c) = .ok r) ↔
    (∃ hdr, Qcow2Header.parse (slice c.1 0 104) = .ok hdr) ∧ L1Loadable c := by
  obtain ⟨f, -, heq⟩ := fromBacking_eq (serves_file c) (File.on_opened c)
  have hmap : ∀ x : Except Qcow2Error Layout,
      (∃ r : Qcow2Reader File, x.map (fun L => { L with backing := f, pos := 0 }) = .ok r) ↔
        ∃ L, x = .ok L := by
    intro x
    cases x <;> simp [Except.map]
  rw [heq, hmap, openedLayout, Medium.file_bytes]
  cases hp : Qcow2Header.parse (slice c.1 0 104) with
  | error e => simp
  | ok hdr =>
    obtain ⟨-, -, -, -, -, hl1Size, hl1Off⟩ := Qcow2Header.parse_window hp
    have hmax : maxL1Entries = 2 ^ 20 := rfl
    simp only [Except.ok.injEq, exists_eq', true_and]
    by_cases hbig : maxL1Entries < hdr.l1Size
    · simp only [if_pos hbig, reduceCtorEq, exists_false, false_iff]
      intro hload
      have hcapped := hload.capped
      omega
    · have hfar : (Medium.file c).seekable hdr.l1TableOffset = false ↔ 2 ^ 63 ≤ hdr.l1TableOffset := by
        rw [Medium.file_seekable, decide_eq_false_iff_not, not_lt]
      have herr := (Medium.file c).readExactAt_error_iff hdr.l1TableOffset (hdr.l1Size * 8)
      rw [hfar, Medium.file_bytes, length_slice, hl1Size, hl1Off] at herr
      simp only [if_neg hbig]
      rw [hl1Size, hl1Off]
      have hfile := c.2
      cases hread : (Medium.file c).readExactAt (beAt c.1 40 8) (beAt c.1 36 4 * 8) with
      | error e =>
        rw [hread] at herr
        have hbad := herr.mp ⟨e, rfl⟩
        simp only [Except.mapError, Except.map, reduceCtorEq, exists_false, false_iff]
        intro hload
        have hnear := hload.near
        have hinside := hload.inside
        omega
      | ok bs =>
        rw [hread] at herr
        simp only [reduceCtorEq, exists_false, false_iff, not_or] at herr
        simp only [Except.mapError, Except.map, Except.ok.injEq, exists_eq', true_iff]
        exact ⟨by omega, by omega, by omega⟩

end Opening

theorem forall_mem_pushIf {c : Bool} {a : Qcow2Anomaly} {P : Qcow2Anomaly → Prop} :
    (∀ b ∈ pushIf c a, P b) ↔ (c = true → P a) := by
  cases c <;> simp [pushIf]

theorem none_refused_iff {info : Qcow2Info} {l : List Qcow2Snapshot} {report : Qcow2RefcountReport} :
    (∀ a ∈ audit info ++ auditSnapshots l ++ (auditOrphans report).toList, a.refused = false) ↔
      info.hasBackingFile = false ∧ info.encryptionMethod = 0 ∧
        info.incompatibleFeatures.testBit 2 = false := by
  have hsnapshots : ∀ a ∈ auditSnapshots l, a.refused = false := by
    intro a ha
    obtain ⟨s, -, rfl⟩ := List.mem_map.mp ha
    rfl
  have horphans : ∀ a ∈ (auditOrphans report).toList, a.refused = false := by
    intro a ha
    obtain ⟨-, rfl⟩ := mem_auditOrphans.mp ha
    rfl
  rw [List.forall_mem_append, List.forall_mem_append, iff_true_intro hsnapshots,
    iff_true_intro horphans, and_true, and_true]
  simp only [audit, List.forall_mem_append, forall_mem_pushIf, Qcow2Anomaly.refused,
    featExternalData, decide_eq_true_eq, land_bit_ne_zero]
  simp
  tauto

/-- The auditor and the strict reader agree on every file: on an image that opens only input or
output can fail the audit, and behind a report an image opens exactly when nothing in the report
stands against it, its other features are decoded and its L1 table can be loaded. -/
theorem open_and_audit_agree (c : Content) :
    ((∃ r, fromBacking (File.opened c) = .ok r) →
      ∀ e, auditPath (File.opened c) = .error e → ∃ e', e = .io e') ∧
    ∀ out, auditPath (File.opened c) = .ok out →
      ((∃ r, fromBacking (File.opened c) = .ok r) ↔
        (∀ a ∈ out, a.refused = false) ∧ ¬ UndecodedFeature c ∧ L1Loadable c) := by
  have hstrict := @Qcow2Header.parse_isOk_iff (slice c.1 0 104)
  rw [plainHeader_window (by omega), le_length_window (by omega), beAt_window _ (by omega),
    beAt_window _ (by omega)] at hstrict
  constructor
  · intro hopen e he
    obtain ⟨hplain, -⟩ := hstrict.mp (opened_iff.mp hopen).1
    have hversion := hplain.version
    obtain ⟨hdr, hhdr⟩ := (RefcountHeader.parse_isOk_iff hplain.long hplain.magic_eq).mpr
      ⟨by omega, hplain.clusterBits⟩
    obtain ⟨info, hinfo⟩ := Qcow2Info.parse_isOk_iff.mpr
      ⟨hplain.long, hplain.magic_eq, by omega, by omega⟩
    rw [auditPath, inspect_opened, hinfo] at he
    cases hl : snapshots (File.opened c) with
    | error e' =>
      rw [hl] at he
      cases he
      exact snapshots_error_io hplain.long hplain.magic_eq hl
    | ok l =>
      cases hr : refcountReport (File.opened c) with
      | error e' =>
        rw [hl, hr] at he
        cases he
        exact refcountReport_error_io hhdr hr
      | ok report =>
        rw [hl, hr] at he
        cases he
  · intro out h
    obtain ⟨hlen, hmagic, hversion, hbits⟩ := header_of_auditPath h
    obtain ⟨info, l, report, hinfo, -, -, rfl⟩ := auditPath_ok h
    rw [inspect_opened] at hinfo
    obtain ⟨-, -, -, -, h8, h32, -, h72⟩ := Qcow2Info.parse_fields hinfo (by omega)
    rw [opened_iff, hstrict, none_refused_iff, h8, h32, h72]
    constructor
    · intro hopen
      obtain ⟨⟨hplain, hfeat⟩, hload⟩ := hopen
      refine ⟨⟨by simp [hplain.noBacking], hplain.noCrypt, ?_⟩, ?_, hload⟩
      · split_ifs with hpresent
        · exact (hfeat hpresent.1 hpresent.2).1
        · exact Nat.zero_testBit 2
      · intro hother
        obtain ⟨h3, h80, hbit⟩ := hother
        obtain ⟨-, hthree, hfour⟩ := hfeat h3 h80
        simp [hthree, hfour] at hbit
    · intro hclean
      obtain ⟨⟨hbacking, hcrypt, hexternal⟩, hother, hload⟩ := hclean
      refine ⟨⟨⟨hlen, hmagic, hversion, by simpa using hbacking, hbits, hcrypt⟩, ?_⟩, hload⟩
      intro h3 h80
      rw [if_pos ⟨h3, h80⟩] at hexternal
      refine ⟨hexternal, ?_, ?_⟩
      · exact Bool.eq_false_iff.mpr fun hbit => hother ⟨h3, h80, .inl hbit⟩
      · exact Bool.eq_false_iff.mpr fun hbit => hother ⟨h3, h80, .inr hbit⟩

end Qcow2
