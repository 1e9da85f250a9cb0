import Qcow2.RefcountRefines

/-! The counters of the refcount walk against the lookups it makes, up to its cap and
beyond it. -/

namespace Qcow2

open StdIo

/-- The clusters that the active tables of a file list, in L1-then-L2 order. -/
def listedHosts (c : Content) (h : RefcountHeader) : List Nat :=
  candidates (Medium.file c) h.clusterSize
    ((tableIn (Medium.file c) h.l1TableOffset h.l1Entries).toOption.getD [])

def refcountAt (c : Content) (h : RefcountHeader) (o : Nat) : Option Nat :=
  let refcountTable := (tableIn (Medium.file c) h.refcountTableOffset h.rtEntries).toOption.getD []
  (answer (refcountOf refcountTable (o / h.clusterSize) h.refcountBits h.clusterSize)
    (File.opened c)).1.toOption.join

structure ExactAccount (c : Content) (h : RefcountHeader) (report : Qcow2RefcountReport)
    (lookups : List Nat) : Prop where
  counted : report.allocatedClusters = lookups.length
  capped : report.allocatedClusters ≤ maxClustersScanned
  orphans : report.orphanClusters = lookups.countP fun o => refcountAt c h o = some 0
  first : maxClustersScanned < (listedHosts c h).length →
    lookups = (listedHosts c h).take maxClustersScanned

theorem refcountAt_eq {c : Content} {h : RefcountHeader} {refcountTable : List Nat} {o : Nat}
    (horder : h.refcountOrder ≤ 6) (ho : o < 2 ^ 64)
    (ht : tableIn (Medium.file c) h.refcountTableOffset h.rtEntries = .ok refcountTable) :
    refcountAt c h o = refcountIn (Medium.file c) refcountTable h.refcountOrder h.clusterSize
      (o / h.clusterSize) := by
  obtain ⟨f, -, hrun⟩ := refcountOf_computes (serves_file c) refcountTable horder h.clusterSize
    ((Nat.div_le_self o h.clusterSize).trans_lt ho) (File.opened c) ⟨0, File.on_opened c⟩
  simp only [refcountAt, ht, Except.toOption, Option.getD_some]
  rw [show h.refcountBits = 1 <<< h.refcountOrder from rfl, answer_eq hrun]
  rfl

theorem refcountScan_account {c : Content} {h : RefcountHeader} {report : Qcow2RefcountReport}
    {lookups : List Nat} (hp : RefcountHeader.parse (slice c.1 0 104) = .ok h)
    (hscan : outcome (refcountScan.run (File.opened c)) = .ok (report, lookups)) :
    report.orphanClusters = (lookups.countP fun o => refcountAt c h o = some 0) ∧
      if 6 < h.refcountOrder then report.allocatedClusters = 0 ∧ lookups = []
      else report.allocatedClusters = min (listedHosts c h).length (maxClustersScanned + 1) ∧
        lookups = (listedHosts c h).take maxClustersScanned := by
  rw [refcountScan_outcome, scanOf, Medium.file_bytes, hp] at hscan
  by_cases hbig : 6 < h.refcountOrder
  · simp only [if_pos hbig, Except.ok.injEq, Prod.mk.injEq] at hscan ⊢
    obtain ⟨rfl, rfl⟩ := hscan
    exact ⟨rfl, rfl, rfl⟩
  · simp only [if_neg hbig] at hscan ⊢
    cases ht : tableIn (Medium.file c) h.refcountTableOffset h.rtEntries with
    | error e => simp [ht] at hscan
    | ok refcountTable =>
      simp only [ht, Except.ok.injEq, Prod.mk.injEq] at hscan
      obtain ⟨rfl, rfl⟩ := hscan
      refine ⟨?_, rfl, rfl⟩
      apply List.countP_congr
      intro o ho
      have hlt := lt_of_mem_candidates (List.mem_of_mem_take ho)
      simp only [refcountAt_eq (show h.refcountOrder ≤ 6 by omega) hlt ht]

/-- The account is exact as long as the tables list no more clusters than the cap. -/
theorem scan_account_exact_iff {c : Content} {h : RefcountHeader} {report : Qcow2RefcountReport}
    {lookups : List Nat} (hp : RefcountHeader.parse (slice c.1 0 104) = .ok h)
    (hscan : outcome (refcountScan.run (File.opened c)) = .ok (report, lookups)) :
    ExactAccount c h report lookups ↔ (listedHosts c h).length ≤ maxClustersScanned := by
  obtain ⟨horphans, hcounters⟩ := refcountScan_account hp hscan
  have hmax : maxClustersScanned = 2 ^ 24 := rfl
  by_cases hbig : 6 < h.refcountOrder
  · rw [if_pos hbig] at hcounters
    obtain ⟨hallocated, rfl⟩ := hcounters
    constructor
    · intro hexact
      by_contra hcap
      -- an order that is refused leaves no lookups to be the first ones
      have hnil := congrArg List.length (hexact.first (by omega))
      rw [List.length_nil, List.length_take] at hnil
      omega
    · intro hcap
      exact ⟨hallocated, by omega, horphans, fun hover => by omega⟩
  · rw [if_neg hbig] at hcounters
    obtain ⟨hallocated, rfl⟩ := hcounters
    constructor
    · intro hexact
      have hcapped := hexact.capped
      omega
    · intro hcap
      refine ⟨?_, by omega, horphans, fun _ => rfl⟩
      rw [hallocated, List.length_take]
      omega

theorem length_replicate_words (n w : Nat) :
    (beFields (List.replicate n (8, w))).length = n * 8 := by
  simp [length_beFields]

theorem beAt_replicate_words (pre post : List UInt8) {n w i : Nat} (hw : w < 2 ^ 64) (hi : i < n) :
    beAt (pre ++ beFields (List.replicate n (8, w)) ++ post) (pre.length + i * 8) 8 = w := by
  have hsplit : List.replicate n (8, w) =
      List.replicate i (8, w) ++ (8, w) :: List.replicate (n - i - 1) (8, w) := by
    rw [← List.replicate_succ, List.replicate_append_replicate]
    congr 1
    omega
  have hsum : ((List.replicate i (8, w)).map Prod.fst).sum = i * 8 := by simp
  have hlen := length_replicate_words n w
  have hfield := @beAt_beFields (List.replicate i (8, w)) (List.replicate (n - i - 1) (8, w)) 8 w
    (by omega)
  rw [← hsplit, hsum] at hfield
  rw [beAt, List.append_assoc, slice_append_right _ _ (by omega), Nat.add_sub_cancel_left,
    slice_append_left _ (by omega)]
  exact hfield

theorem tableIn_replicate {M : Medium} (pre post : List UInt8) {n w : Nat} (hw : w < 2 ^ 64)
    (hpre : pre.length ≠ 0)
    (hM : M.bytes = pre ++ beFields (List.replicate n (8, w)) ++ post) :
    tableIn M pre.length n = .ok (List.replicate n w) := by
  have hlen := length_replicate_words n w
  have hin : pre.length + n * 8 ≤ M.bytes.length := by
    rw [hM, List.length_append, List.length_append, hlen]
    omega
  rw [tableIn_of_le hpre hin, Except.ok.injEq, List.eq_replicate_iff]
  refine ⟨by simp, ?_⟩
  intro b hb
  obtain ⟨i, hi, rfl⟩ := List.mem_map.mp hb
  rw [hM]
  exact beAt_replicate_words pre post hw (List.mem_range.mp hi)

/-- The header, its tail and the 129 entries of the L1 table. -/
def crowdedTables : List UInt8 :=
  headerBytes 2 20 512 129 104 0 0 ++ List.replicate 32 0 ++ beFields (List.replicate 129 (8, 1536))

/-- All L1 entries name one L2 table of 131072 equal entries: one table more than the
cap has room for. -/
def crowdedBytes : List UInt8 :=
  crowdedTables ++ List.replicate 400 0 ++ beFields (List.replicate 131072 (8, 512))

theorem length_crowdedTables : (crowdedTables ++ List.replicate 400 0).length = 1536 := by
  simp only [crowdedTables, List.length_append, length_headerBytes, length_replicate_words,
    List.length_replicate]

def crowdedImage : Content := ⟨crowdedBytes, by
  rw [crowdedBytes, List.length_append, length_crowdedTables, length_replicate_words]
  norm_num⟩

theorem crowdedImage_header :
    ∃ h, RefcountHeader.parse (slice crowdedImage.1 0 104) = .ok h ∧ h.refcountOrder = 4 ∧
      h.refcountTableOffset = 0 ∧ h.l1TableOffset = 104 ∧ h.l1Size = 129 ∧ h.clusterBits = 20 := by
  have hwindow : slice crowdedImage.1 0 104 =
      headerBytes 2 20 512 129 104 0 0 ++ List.replicate 32 0 := by
    have hlen : (headerBytes 2 20 512 129 104 0 0 ++ List.replicate 32 0).length = 104 := by simp
    rw [show crowdedImage.1 = crowdedBytes from rfl, crowdedBytes, crowdedTables,
      List.append_assoc, List.append_assoc]
    nth_rewrite 2 [← hlen]
    exact slice_length_append _ _
  rw [hwindow]
  obtain ⟨h, hp, hfields⟩ := exists_ok_map (x := RefcountHeader.parse
    (headerBytes 2 20 512 129 104 0 0 ++ List.replicate 32 0))
    (f := fun h => (h.refcountOrder, h.refcountTableOffset, h.l1TableOffset, h.l1Size, h.clusterBits))
    (b := (4, 0, 104, 129, 20)) (by decide)
  simp only [Prod.mk.injEq] at hfields
  exact ⟨h, hp, hfields⟩

theorem crowdedImage_listed {h : RefcountHeader} (hoff : h.l1TableOffset = 104) (hsize : h.l1Size = 129)
    (hbits : h.clusterBits = 20) : listedHosts crowdedImage h = List.replicate (129 * 131072) 512 := by
  have hcs : h.clusterSize = 2 ^ 20 := by rw [RefcountHeader.clusterSize, hbits, Nat.one_shiftLeft]
  have hentries : h.l1Entries = 129 := by
    rw [RefcountHeader.l1Entries, hsize]
    rfl
  have hl1 : tableIn (Medium.file crowdedImage) 104 129 = .ok (List.replicate 129 1536) := by
    have hlen : (headerBytes 2 20 512 129 104 0 0 ++ List.replicate 32 0).length = 104 := by simp
    rw [← hlen]
    exact tableIn_replicate _ (List.replicate 400 0 ++ beFields (List.replicate 131072 (8, 512)))
      (by decide) (by rw [hlen]; decide) (List.append_assoc crowdedTables _ _)
  have hl2 : tableIn (Medium.file crowdedImage) 1536 131072 = .ok (List.replicate 131072 512) := by
    rw [← length_crowdedTables]
    exact tableIn_replicate _ [] (by decide) (by rw [length_crowdedTables]; decide)
      (List.append_nil crowdedBytes).symm
  have htable : entryOffset 1536 = 1536 := by decide
  have hhost : hostOf 512 = some 512 := by decide
  rw [listedHosts, hoff, hentries, hl1, hcs]
  simp only [Except.toOption, Option.getD_some, candidates, List.flatMap_replicate, htable]
  rw [if_neg (by decide), show 2 ^ 20 / 8 = 131072 from rfl, hl2]
  simp only [Option.getD_some, List.filterMap_replicate, hhost, List.flatten_replicate_replicate]

theorem crowdedImage_scanned {h : RefcountHeader}
    (hp : RefcountHeader.parse (slice crowdedImage.1 0 104) = .ok h) (horder : h.refcountOrder = 4)
    (hrt : h.refcountTableOffset = 0) :
    ∃ report lookups, outcome (refcountScan.run (File.opened crowdedImage)) = .ok (report, lookups) := by
  have htable : tableIn (Medium.file crowdedImage) h.refcountTableOffset h.rtEntries = .ok [] :=
    if_pos (.inr hrt)
  rw [refcountScan_outcome, scanOf, Medium.file_bytes, hp]
  simp only [if_neg (show ¬ 6 < h.refcountOrder by omega), htable]
  exact ⟨_, _, rfl⟩

theorem scan_account_exact_iff_sample : ∃ h report lookups,
    RefcountHeader.parse (slice crowdedImage.1 0 104) = .ok h ∧
    outcome (refcountScan.run (File.opened crowdedImage)) = .ok (report, lookups) ∧
    (ExactAccount crowdedImage h report lookups ↔
      (listedHosts crowdedImage h).length ≤ maxClustersScanned) := by
  obtain ⟨h, hp, horder, hrt, -⟩ := crowdedImage_header
  obtain ⟨report, lookups, hscan⟩ := crowdedImage_scanned hp horder hrt
  exact ⟨h, report, lookups, hp, hscan, scan_account_exact_iff hp hscan⟩

/-- The report counts a cluster that it never looks up. -/
theorem crowded_image_miscounted : ∃ h report lookups,
    RefcountHeader.parse (slice crowdedImage.1 0 104) = .ok h ∧
    outcome (refcountScan.run (File.opened crowdedImage)) = .ok (report, lookups) ∧
    report.allocatedClusters = maxClustersScanned + 1 ∧ lookups.length = maxClustersScanned ∧
    ¬ ExactAccount crowdedImage h report lookups := by
  obtain ⟨h, hp, horder, hrt, hoff, hsize, hbits⟩ := crowdedImage_header
  obtain ⟨report, lookups, hscan⟩ := crowdedImage_scanned hp horder hrt
  have hlisted := congrArg List.length (crowdedImage_listed hoff hsize hbits)
  have hmax : maxClustersScanned = 2 ^ 24 := rfl
  rw [List.length_replicate] at hlisted
  obtain ⟨-, hcounters⟩ := refcountScan_account hp hscan
  rw [if_neg (by omega)] at hcounters
  obtain ⟨hallocated, hlookups⟩ := hcounters
  have hcount : report.allocatedClusters = maxClustersScanned + 1 := by omega
  refine ⟨h, report, lookups, hp, hscan, hcount, ?_, ?_⟩
  · rw [hlookups, List.length_take]
    omega
  · intro hexact
    have hcapped := hexact.capped
    omega

end Qcow2
