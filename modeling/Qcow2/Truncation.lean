import Qcow2.SnapshotRefines
import Qcow2.RefcountRefines

/-! What the snapshot enumeration and the refcount report make of a file cut short. -/

namespace Qcow2

open StdIo

/-- The start of record `k` as the parser advances from `off`. -/
def reached (bytes : List UInt8) (off k : Nat) : Nat := (nextRecord bytes)^[k] off

section Records

variable {short bytes : List UInt8} {p n : Nat}

theorem reached_succ (bytes : List UInt8) (p k : Nat) :
    reached bytes p (k + 1) = reached bytes (nextRecord bytes p) k :=
  Function.iterate_succ_apply _ k p

theorem le_reached (bytes : List UInt8) (p k : Nat) : p ≤ reached bytes p k := by
  induction k generalizing p with
  | zero => exact le_rfl
  | succ k ih =>
    rw [reached_succ]
    exact (Nat.le_add_right _ _).trans (ih _)

theorem recordEnd_le_reached (bytes : List UInt8) (p k : Nat) :
    recordEnd bytes p ≤ recordEnd bytes (reached bytes p k) := by
  cases k with
  | zero => exact le_rfl
  | succ k =>
    rw [reached_succ]
    calc recordEnd bytes p
        ≤ nextRecord bytes p := recordEnd_le_nextRecord bytes p
      _ ≤ reached bytes (nextRecord bytes p) k := le_reached bytes _ k
      _ ≤ recordEnd bytes (reached bytes (nextRecord bytes p) k) := Nat.le_add_right _ _

theorem sizes_of_isPrefix (h : short <+: bytes) (hp : p + snapshotHeaderFixed ≤ short.length) :
    skippedExtra short p = skippedExtra bytes p ∧ idSize short p = idSize bytes p ∧
      nameSize short p = nameSize bytes p := by
  rw [snapshotHeaderFixed] at hp
  refine ⟨?_, beAt_of_isPrefix h (by omega), beAt_of_isPrefix h (by omega)⟩
  rw [skippedExtra, skippedExtra, extraDataSize, extraDataSize, beAt_of_isPrefix h (by omega)]

theorem recordSize_of_isPrefix (h : short <+: bytes) (hp : p + snapshotHeaderFixed ≤ short.length) :
    recordSize short p (skippedExtra short p) = recordSize bytes p (skippedExtra bytes p) := by
  obtain ⟨hextra, hid, hname⟩ := sizes_of_isPrefix h hp
  rw [recordSize, recordSize, hextra, hid, hname]

theorem recordEnd_le_iff (h : short <+: bytes) :
    recordEnd short p ≤ short.length ↔ recordEnd bytes p ≤ short.length := by
  have hshort := fixed_le_recordEnd short p
  have hbytes := fixed_le_recordEnd bytes p
  by_cases hp : p + snapshotHeaderFixed ≤ short.length
  · rw [recordEnd, recordEnd, recordSize_of_isPrefix h hp]
  · omega

theorem recordAt_of_isPrefix (h : short <+: bytes) (hend : recordEnd bytes p ≤ short.length) :
    recordAt short p (skippedExtra short p) = recordAt bytes p (skippedExtra bytes p) := by
  have hp := (fixed_le_recordEnd bytes p).trans hend
  obtain ⟨hextra, hid, hname⟩ := sizes_of_isPrefix h hp
  rw [recordEnd_eq] at hend
  rw [snapshotHeaderFixed] at hp hend
  simp only [recordAt, hextra, hid, hname, snapshotHeaderFixed]
  rw [slice_of_isPrefix h (by omega), slice_of_isPrefix h (by omega),
    beAt_of_isPrefix h (by omega), beAt_of_isPrefix h (by omega), beAt_of_isPrefix h (by omega)]

theorem recordsFrom_of_isPrefix (h : short <+: bytes) (n p : Nat) :
    recordsFrom short n p <+: recordsFrom bytes n p ∧
      ∀ k, k < (recordsFrom bytes n p).length →
        (k < (recordsFrom short n p).length ↔
          recordEnd bytes (reached bytes p k) ≤ short.length) := by
  induction n generalizing p with
  | zero => exact ⟨List.prefix_rfl, fun k hk => absurd hk (Nat.not_lt_zero k)⟩
  | succ n ih =>
    have hle := h.length_le
    have hiff := recordEnd_le_iff (p := p) h
    by_cases hend : recordEnd bytes p ≤ short.length
    · have hsize := recordSize_of_isPrefix h ((fixed_le_recordEnd bytes p).trans hend)
      have hnext : nextRecord short p = nextRecord bytes p := by
        rw [nextRecord, nextRecord, hsize]
      obtain ⟨hpre, hcut⟩ := ih (nextRecord bytes p)
      have hshort : recordsFrom short (n + 1) p = recordAt bytes p (skippedExtra bytes p) ::
          recordsFrom short n (nextRecord bytes p) := by
        rw [recordsFrom, if_neg (by omega), recordAt_of_isPrefix h hend, hnext]
      have hbytes : recordsFrom bytes (n + 1) p = recordAt bytes p (skippedExtra bytes p) ::
          recordsFrom bytes n (nextRecord bytes p) := by
        rw [recordsFrom, if_neg (by omega)]
      rw [hshort, hbytes]
      refine ⟨List.cons_prefix_cons.mpr ⟨rfl, hpre⟩, ?_⟩
      intro k hk
      cases k with
      | zero => exact iff_of_true (by simp) hend
      | succ k =>
        rw [reached_succ, List.length_cons, Nat.succ_lt_succ_iff]
        exact hcut k (by simpa using hk)
    · have hshort : short.length < recordEnd short p := by omega
      rw [recordsFrom_of_lt hshort]
      refine ⟨List.nil_prefix, ?_⟩
      intro k _
      -- the ends only grow, so every later record is cut off too
      have hlater := recordEnd_le_reached bytes p k
      exact iff_of_false (Nat.not_lt_zero k) (by omega)

end Records

theorem snapshots_truncated {c c' : Content} {l : List Qcow2Snapshot} (hcut : c'.1 <+: c.1)
    (hlen : 72 ≤ c'.1.length) (h : snapshots (File.opened c) = .ok l) :
    ∃ l', snapshots (File.opened c') = .ok l' ∧ l' <+: l ∧
      ∀ k, k < l.length → (k < l'.length ↔
        recordEnd c.1 (reached c.1 (beAt c.1 64 8) k) ≤ c'.1.length) := by
  have hle := hcut.length_le
  rw [snapshots_eq, snapshotsIn, minHeaderSize] at h ⊢
  rw [if_neg (by omega)] at h ⊢
  rw [beAt_of_isPrefix hcut (by omega : 0 + 4 ≤ _), beAt_of_isPrefix hcut (by omega : 60 + 4 ≤ _),
    beAt_of_isPrefix hcut (by omega : 64 + 8 ≤ _)]
  split_ifs at h ⊢ with hmagic hnone hfar
  · obtain rfl : [] = l := Except.ok.inj h
    exact ⟨[], rfl, List.prefix_rfl, fun k hk => absurd hk (Nat.not_lt_zero k)⟩
  · obtain rfl : recordsFrom c.1 _ _ = l := Except.ok.inj h
    exact ⟨_, rfl, recordsFrom_of_isPrefix hcut _ _⟩

/-- Cut inside the second of its two records. -/
def cutEvidenceFile : Content := ⟨evidenceFile.1.take 4170, by
  have hlen := List.length_take_le 4170 evidenceFile.1
  omega⟩

theorem snapshots_truncated_sample : ∃ l l', snapshots (File.opened evidenceFile) = .ok l ∧
    l.length = 2 ∧ snapshots (File.opened cutEvidenceFile) = .ok l' ∧ l'.length = 1 ∧ l' <+: l ∧
      ∀ k, k < l.length → (k < l'.length ↔
        recordEnd evidenceFile.1 (reached evidenceFile.1 (beAt evidenceFile.1 64 8) k) ≤
          cutEvidenceFile.1.length) := by
  obtain ⟨l, hl, htwo⟩ := exists_ok_map (x := snapshots (File.opened evidenceFile))
    (f := List.length) (b := 2) (by decide +kernel)
  obtain ⟨l₁, hl₁, hone⟩ := exists_ok_map (x := snapshots (File.opened cutEvidenceFile))
    (f := List.length) (b := 1) (by decide +kernel)
  have hpre : cutEvidenceFile.1 <+: evidenceFile.1 := List.take_prefix _ _
  obtain ⟨l', hl', hcut⟩ := snapshots_truncated hpre (by decide +kernel) hl
  obtain rfl : l₁ = l' := Except.ok.inj (hl₁.symm.trans hl')
  exact ⟨l, l₁, hl, htwo, hl₁, hone, hcut⟩

section Report

variable {M M' : Medium} {offset n : Nat}

theorem tableIn_of_isPrefix (h : M'.bytes <+: M.bytes) {table : List Nat}
    (ht : tableIn M' offset n = .ok table) : tableIn M offset n = .ok table := by
  unfold tableIn at ht ⊢
  by_cases hnone : n = 0 ∨ offset = 0
  · rwa [if_pos hnone] at ht ⊢
  · rw [if_neg hnone] at ht ⊢
    cases hr : M'.readExactAt offset (n * 8) with
    | error e => simp [hr, Except.mapError, Except.map] at ht
    | ok bs => rwa [Medium.readExactAt_of_isPrefix h (by omega) hr, ← hr]

theorem tableIn_getD_sublist (h : M'.bytes <+: M.bytes) (offset n : Nat) :
    List.Sublist ((tableIn M' offset n).toOption.getD []) ((tableIn M offset n).toOption.getD []) := by
  cases ht : tableIn M' offset n with
  | error e => exact List.nil_sublist _
  | ok table => rw [tableIn_of_isPrefix h ht]

theorem candidates_sublist (h : M'.bytes <+: M.bytes) (clusterSize : Nat) {l1 l1' : List Nat}
    (hl1 : List.Sublist l1' l1) :
    List.Sublist (candidates M' clusterSize l1') (candidates M clusterSize l1) := by
  refine List.Sublist.trans ?_ (hl1.flatMap _)
  apply List.Sublist.flatMap_right
  intro e _
  by_cases hzero : entryOffset e = 0
  · rw [if_pos hzero, if_pos hzero]
  · rw [if_neg hzero, if_neg hzero]
    exact (tableIn_getD_sublist h _ _).filterMap _

theorem refcountIn_of_isPrefix (h : M'.bytes <+: M.bytes) {refcountTable : List Nat}
    {order clusterSize clusterIdx x : Nat}
    (hx : refcountIn M' refcountTable order clusterSize clusterIdx = some x) :
    refcountIn M refcountTable order clusterSize clusterIdx = some x := by
  have hread : ∀ {off n : Nat} {f : List UInt8 → Nat}, 0 < n →
      (M'.readExactAt off n).toOption.map f = some x →
        (M.readExactAt off n).toOption.map f = some x := by
    intro off n f hn hr
    cases hr' : M'.readExactAt off n with
    | error e => simp [hr', Except.toOption] at hr
    | ok bs => rwa [Medium.readExactAt_of_isPrefix h hn hr', ← hr']
  unfold refcountIn at hx ⊢
  by_cases hper : clusterSize * 8 / 2 ^ order = 0
  · simp [hper] at hx
  · simp only [if_neg hper] at hx ⊢
    cases he : refcountTable[clusterIdx / (clusterSize * 8 / 2 ^ order)]? with
    | none => simp [he] at hx
    | some entry =>
      simp only [he, Option.bind_some] at hx ⊢
      split_ifs at hx ⊢ with hzero hwide
      · exact hx
      · have hpos : 2 ^ 3 ≤ 2 ^ order := Nat.pow_le_pow_right (by omega) hwide
        exact hread (by omega) hx
      · exact hread Nat.one_pos hx

end Report

/-- The report of a cut file is the whole file's but for its two counters, which are no larger. -/
theorem refcountReport_of_isPrefix {c c' : Content} {r r' : Qcow2RefcountReport}
    (hcut : c'.1 <+: c.1) (hlen : 104 ≤ c'.1.length)
    (h : refcountReport (File.opened c) = .ok r) (hcap : r.allocatedClusters ≤ maxClustersScanned)
    (h' : refcountReport (File.opened c') = .ok r') :
    ∃ allocatedClusters orphanClusters, r' = { r with allocatedClusters, orphanClusters } ∧
      allocatedClusters ≤ r.allocatedClusters ∧ orphanClusters ≤ r.orphanClusters := by
  have hpre : (Medium.file c').bytes <+: (Medium.file c).bytes := hcut
  obtain ⟨hdr, hp⟩ := refcountReport_header h
  have hp' : RefcountHeader.parse (slice c'.1 0 104) = .ok hdr := by
    rw [slice_of_isPrefix hcut (by omega), hp]
  rw [refcountReport_eq, scanOf_eq, Medium.file_bytes, hp, Except.bind, scanBehind] at h
  rw [refcountReport_eq, scanOf_eq, Medium.file_bytes, hp', Except.bind, scanBehind] at h'
  split_ifs at h h' with hbig
  · rw [h] at h'
    obtain rfl := Except.ok.inj h'
    exact ⟨_, _, rfl, le_rfl, le_rfl⟩
  · cases ht' : tableIn (Medium.file c') hdr.refcountTableOffset hdr.rtEntries with
    | error e =>
      rw [ht'] at h'
      cases h'
    | ok refcountTable =>
      rw [tableIn_of_isPrefix hpre ht'] at h
      rw [ht'] at h'
      obtain rfl := Except.ok.inj h
      obtain rfl := Except.ok.inj h'
      have hsub := candidates_sublist hpre hdr.clusterSize
        (tableIn_getD_sublist hpre hdr.l1TableOffset hdr.l1Entries)
      have hle := hsub.length_le
      refine ⟨_, _, rfl, ?_, ?_⟩
      · simp only [RefcountHeader.report]
        omega
      · simp only [RefcountHeader.report] at hcap ⊢
        rw [List.take_of_length_le (by omega), List.take_of_length_le (by omega)]
        -- a refcount read as zero in the cut file is read as zero in the whole
        refine (List.countP_mono_left ?_).trans hsub.countP_le
        intro o _ ho
        simp only [decide_eq_true_eq] at ho ⊢
        exact refcountIn_of_isPrefix hpre ho

/-- A cut file never gains an orphan, nor an allocated cluster. -/
theorem truncation_adds_no_orphan {c c' : Content} {r r' : Qcow2RefcountReport}
    (hcut : c'.1 <+: c.1) (hlen : 104 ≤ c'.1.length)
    (h : refcountReport (File.opened c) = .ok r) (hcap : r.allocatedClusters ≤ maxClustersScanned)
    (h' : refcountReport (File.opened c') = .ok r') :
    r'.orphanClusters ≤ r.orphanClusters ∧ r'.allocatedClusters ≤ r.allocatedClusters ∧
      r'.refcountOrder = r.refcountOrder ∧ r'.refcountTableOffset = r.refcountTableOffset ∧
      r'.refcountTableClusters = r.refcountTableClusters := by
  obtain ⟨allocated, orphans, rfl, hallocated, horphans⟩ :=
    refcountReport_of_isPrefix hcut hlen h hcap h'
  exact ⟨horphans, hallocated, rfl, rfl, rfl⟩

/-- One cluster without a refcount block, in a table at the end of the file. -/
def orphanImage : Content :=
  ⟨headerBytes 2 9 512 1 104 112 1 ++ List.replicate 32 0 ++ beBytes 8 1024 ++
    List.replicate 912 0 ++ beBytes 8 4096 ++ List.replicate 504 0, by
      simp only [List.length_append, length_headerBytes, length_beBytes, List.length_replicate]
      norm_num⟩

def cutOrphanImage : Content := ⟨orphanImage.1.take 1100, by
  have hlen := List.length_take_le 1100 orphanImage.1
  omega⟩

theorem truncation_adds_no_orphan_sample : ∃ r r',
    refcountReport (File.opened orphanImage) = .ok r ∧ r.allocatedClusters = 1 ∧
      refcountReport (File.opened cutOrphanImage) = .ok r' ∧
      r'.orphanClusters ≤ r.orphanClusters ∧ r'.allocatedClusters ≤ r.allocatedClusters ∧
      r'.refcountOrder = r.refcountOrder ∧ r'.refcountTableOffset = r.refcountTableOffset ∧
      r'.refcountTableClusters = r.refcountTableClusters := by
  obtain ⟨r, hr, hone⟩ := exists_ok_map (x := refcountReport (File.opened orphanImage))
    (f := Qcow2RefcountReport.allocatedClusters) (b := 1) (by decide +kernel)
  obtain ⟨r', hr'⟩ := exists_ok (x := refcountReport (File.opened cutOrphanImage))
    (by decide +kernel)
  exact ⟨r, r', hr, hone, hr', truncation_adds_no_orphan (List.take_prefix _ _) (by decide +kernel)
    hr (by rw [hone]; decide) hr'⟩

end Qcow2
