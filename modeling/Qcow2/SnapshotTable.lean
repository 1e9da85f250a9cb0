import Qcow2.SnapshotRefines

/-! The snapshot table as the records' own sizes lay it out, and the entries that
the enumeration takes from it. -/

namespace Qcow2

open StdIo

def storedNext (bytes : List UInt8) (p : Nat) : Nat :=
  p + roundUp8 (recordSize bytes p (extraDataSize bytes p))

/-- Record `k` of the table at `off` starts `k` stored sizes, each rounded up, behind `off`. -/
def boundary (bytes : List UInt8) (off k : Nat) : Nat := (storedNext bytes)^[k] off

/-- The record at `p` lies in the file and has no more extra data than the parser skips. -/
def Followable (bytes : List UInt8) (p : Nat) : Prop :=
  extraDataSize bytes p ≤ maxExtraData ∧
    p + recordSize bytes p (extraDataSize bytes p) ≤ bytes.length

/-- Every entry is decoded from the record at its boundary. -/
def AtBoundaries (bytes : List UInt8) (off : Nat) (l : List Qcow2Snapshot) : Prop :=
  ∀ k s, l[k]? = some s → Followable bytes (boundary bytes off k) ∧
    s = recordAt bytes (boundary bytes off k) (extraDataSize bytes (boundary bytes off k))

/-- No record behind followable ones stores more extra data than the parser skips and
still looks complete once its extra data is cut to that size. -/
def NoClampedRecord (bytes : List UInt8) (off n : Nat) : Prop :=
  ∀ k, k < n → (∀ j, j < k → Followable bytes (boundary bytes off j)) →
    maxExtraData < extraDataSize bytes (boundary bytes off k) →
      bytes.length < boundary bytes off k + recordSize bytes (boundary bytes off k) maxExtraData

section Boundaries

variable {bytes : List UInt8} {p n : Nat}

theorem boundary_succ (bytes : List UInt8) (p k : Nat) :
    boundary bytes p (k + 1) = boundary bytes (storedNext bytes p) k :=
  Function.iterate_succ_apply _ k p

theorem skippedExtra_of_le (h : extraDataSize bytes p ≤ maxExtraData) :
    skippedExtra bytes p = extraDataSize bytes p := Nat.min_eq_left h

theorem skippedExtra_of_lt (h : maxExtraData < extraDataSize bytes p) :
    skippedExtra bytes p = maxExtraData := Nat.min_eq_right h.le

theorem followable_iff : Followable bytes p ↔
    extraDataSize bytes p ≤ maxExtraData ∧ recordEnd bytes p ≤ bytes.length := by
  rw [Followable, recordEnd]
  constructor
  · intro h
    rw [skippedExtra_of_le h.1]
    exact h
  · intro h
    rwa [skippedExtra_of_le h.1] at h

theorem atBoundaries_cons (hf : Followable bytes p) (l : List Qcow2Snapshot) :
    AtBoundaries bytes p (recordAt bytes p (extraDataSize bytes p) :: l) ↔
      AtBoundaries bytes (storedNext bytes p) l := by
  constructor
  · intro h k s hk
    rw [← boundary_succ]
    exact h (k + 1) s (by simpa using hk)
  · intro h k s hk
    cases k with
    | zero =>
      obtain rfl : recordAt bytes p (extraDataSize bytes p) = s := by simpa using hk
      exact ⟨hf, rfl⟩
    | succ k =>
      rw [boundary_succ]
      exact h k s (by simpa using hk)

theorem noClampedRecord_succ (hf : Followable bytes p) :
    NoClampedRecord bytes p (n + 1) ↔ NoClampedRecord bytes (storedNext bytes p) n := by
  constructor
  · intro h k hk hbefore hbig
    rw [← boundary_succ] at hbig ⊢
    apply h (k + 1) (by omega) _ hbig
    intro j hj
    cases j with
    | zero => exact hf
    | succ j =>
      rw [boundary_succ]
      exact hbefore j (by omega)
  · intro h k hk hbefore hbig
    cases k with
    | zero => exact absurd hf.1 (Nat.not_le.mpr hbig)
    | succ k =>
      rw [boundary_succ] at hbig ⊢
      apply h k (by omega) _ hbig
      intro j hj
      rw [← boundary_succ]
      exact hbefore (j + 1) (by omega)

theorem recordsFrom_atBoundaries_iff :
    AtBoundaries bytes p (recordsFrom bytes n p) ↔ NoClampedRecord bytes p n := by
  induction n generalizing p with
  | zero =>
    constructor
    · intro _ k hk
      omega
    · intro _ k s hk
      simp [recordsFrom] at hk
  | succ n ih =>
    by_cases hend : bytes.length < recordEnd bytes p
    · rw [recordsFrom_of_lt hend]
      constructor
      · intro _ k hk hbefore hbig
        cases k with
        | zero =>
          have hskip := skippedExtra_of_lt hbig
          rw [recordEnd] at hend
          exact hskip ▸ hend
        | succ k =>
          have hfirst := (followable_iff.mp (hbefore 0 (by omega))).2
          have hend' : bytes.length < recordEnd bytes (boundary bytes p 0) := hend
          omega
      · intro _ k s hk
        simp at hk
    · rw [recordsFrom, if_neg hend]
      by_cases hbig : extraDataSize bytes p ≤ maxExtraData
      · have hf : Followable bytes p := followable_iff.mpr ⟨hbig, by omega⟩
        have hnext : nextRecord bytes p = storedNext bytes p := by
          rw [nextRecord, skippedExtra_of_le hbig, storedNext]
        rw [skippedExtra_of_le hbig, atBoundaries_cons hf, hnext, ih, noClampedRecord_succ hf]
      · have hskip := skippedExtra_of_lt (Nat.not_le.mp hbig)
        constructor
        · intro h
          exact absurd (h 0 _ rfl).1.1 hbig
        · intro h
          have hshort := h 0 (by omega) (fun j hj => by omega) (Nat.not_le.mp hbig)
          rw [recordEnd, hskip] at hend
          exact absurd hshort hend

end Boundaries

/-- Every entry comes from its record unless a record that stores more extra data
than the parser skips is read as if it stored no more. -/
theorem snapshots_at_boundaries_iff {c : Content} {l : List Qcow2Snapshot}
    (h : snapshots (File.opened c) = .ok l) :
    AtBoundaries c.1 (beAt c.1 64 8) l ↔
      (beAt c.1 64 8 ≠ 0 →
        NoClampedRecord c.1 (beAt c.1 64 8) (min (beAt c.1 60 4) maxSnapshots)) := by
  obtain ⟨-, -, hlist⟩ := recordsFrom_of_snapshots h
  rw [hlist]
  by_cases hoff : beAt c.1 64 8 = 0
  · rw [if_pos hoff]
    simp [AtBoundaries, hoff]
  · rw [if_neg hoff, recordsFrom_atBoundaries_iff]
    simp only [ne_eq, hoff, not_false_eq_true, true_implies]

theorem snapshots_at_boundaries_iff_sample : ∃ l,
    snapshots (File.opened evidenceFile) = .ok l ∧ l.map Qcow2Snapshot.name = ["alpha", "é"] ∧
      (AtBoundaries evidenceFile.1 (beAt evidenceFile.1 64 8) l ↔
        (beAt evidenceFile.1 64 8 ≠ 0 →
          NoClampedRecord evidenceFile.1 (beAt evidenceFile.1 64 8)
            (min (beAt evidenceFile.1 60 4) maxSnapshots))) := by
  obtain ⟨l, hl, hnames⟩ := exists_ok_map (x := snapshots (File.opened evidenceFile))
    (f := List.map Qcow2Snapshot.name) (b := ["alpha", "é"]) (by decide +kernel)
  exact ⟨l, hl, hnames, snapshots_at_boundaries_iff hl⟩

def fixedBytes (extraDataSize idSize nameSize : Nat) : List UInt8 :=
  List.replicate 12 0 ++ beBytes 2 idSize ++ beBytes 2 nameSize ++ List.replicate 20 0 ++
    beBytes 4 extraDataSize

@[simp] theorem length_fixedBytes (e i n : Nat) : (fixedBytes e i n).length = 40 := by
  simp [fixedBytes]

/-- Eight bytes of extra data more than the parser skips, then the id. -/
def swollenImage : Content :=
  ⟨snapshotHeader 2 1 72 ++ fixedBytes 65544 1 0 ++ (List.replicate 65544 0x41 ++ [0x31]), by
    simp [-List.reduceReplicate]⟩

theorem id_taken_from_extra_data : ∃ s, snapshots (File.opened swollenImage) = .ok [s] ∧
    s.id = "A" ∧ ¬ AtBoundaries swollenImage.1 (beAt swollenImage.1 64 8) [s] := by
  have hlen : swollenImage.1.length = 65657 := by simp [swollenImage, -List.reduceReplicate]
  have hhead : snapshotHeader 2 1 72 ++ fixedBytes 65544 1 0 <+: swollenImage.1 :=
    List.prefix_append _ _
  have hfield : ∀ {off n x : Nat}, off + n ≤ 112 →
      beAt (snapshotHeader 2 1 72 ++ fixedBytes 65544 1 0) off n = x →
        beAt swollenImage.1 off n = x := by
    intro off n x ho hx
    rw [← beAt_of_isPrefix hhead (by simpa using ho), hx]
  have hmagic : beAt swollenImage.1 0 4 = magic := hfield (by omega) (by decide)
  have hcount : beAt swollenImage.1 60 4 = 1 := hfield (by omega) (by decide)
  have hoff : beAt swollenImage.1 64 8 = 72 := hfield (by omega) (by decide)
  have hextra : extraDataSize swollenImage.1 72 = 65544 := hfield (by omega) (by decide)
  have hid : idSize swollenImage.1 72 = 1 := hfield (by omega) (by decide)
  have hname : nameSize swollenImage.1 72 = 0 := hfield (by omega) (by decide)
  have hskip : skippedExtra swollenImage.1 72 = 65536 := by
    rw [skippedExtra_of_lt (by rw [hextra]; decide), maxExtraData]
  have hend : recordEnd swollenImage.1 72 = 65649 := by
    rw [recordEnd_eq, hskip, hid, hname, snapshotHeaderFixed]
  have hshifted : slice swollenImage.1 (72 + 40 + 65536) 1 = [0x41] := by
    simp only [swollenImage]
    rw [slice_append_right _ _ (by simp), slice_append_left _ (by simp [-List.reduceReplicate])]
    simp [slice, -List.reduceReplicate]
  refine ⟨recordAt swollenImage.1 72 65536, ?_, ?_, ?_⟩
  · rw [snapshots_eq, snapshotsIn, hlen, hmagic, hcount, hoff]
    simp [minHeaderSize, maxSnapshots, recordsFrom, hlen, hend, hskip]
  · rw [recordAt, hid, snapshotHeaderFixed, hshifted]
    decide +kernel
  · rw [hoff]
    intro h
    have hbig : extraDataSize swollenImage.1 72 ≤ maxExtraData := (h 0 _ rfl).1.1
    rw [hextra] at hbig
    exact absurd hbig (by decide)

def Qcow2Snapshot.textSize (s : Qcow2Snapshot) : Nat := s.id.utf8ByteSize + s.name.utf8ByteSize

theorem textSize_recordAt_le (bytes : List UInt8) (p extra : Nat) :
    (recordAt bytes p extra).textSize ≤ 3 * (idSize bytes p + nameSize bytes p) := by
  have hid := utf8ByteSize_fromUtf8Lossy_le
    (slice bytes (p + snapshotHeaderFixed + extra) (idSize bytes p))
  have hname := utf8ByteSize_fromUtf8Lossy_le
    (slice bytes (p + snapshotHeaderFixed + extra + idSize bytes p) (nameSize bytes p))
  have hidLen := length_slice_le bytes (p + snapshotHeaderFixed + extra) (idSize bytes p)
  have hnameLen := length_slice_le bytes (p + snapshotHeaderFixed + extra + idSize bytes p)
    (nameSize bytes p)
  simp only [Qcow2Snapshot.textSize, recordAt]
  omega

theorem recordsFrom_size_le (bytes : List UInt8) (n p : Nat) :
    3 * (snapshotHeaderFixed * (recordsFrom bytes n p).length) +
      ((recordsFrom bytes n p).map Qcow2Snapshot.textSize).sum ≤ 3 * (bytes.length - p) := by
  induction n generalizing p with
  | zero => exact Nat.zero_le _
  | succ n ih =>
    rw [recordsFrom]
    split_ifs with hend
    · exact Nat.zero_le _
    · -- the strings lie between the fixed part and the next record
      have htext := textSize_recordAt_le bytes p (skippedExtra bytes p)
      have hnext := recordEnd_le_nextRecord bytes p
      have hrest := ih (nextRecord bytes p)
      rw [recordEnd_eq, snapshotHeaderFixed] at hend hnext
      simp only [List.length_cons, List.map_cons, List.sum_cons, snapshotHeaderFixed] at hrest ⊢
      omega

/-- A listing is paid for by the file: forty stored bytes for every entry, and a stored byte
for every three bytes of the decoded strings. -/
theorem listing_not_amplified {c : Content} {l : List Qcow2Snapshot}
    (h : snapshots (File.opened c) = .ok l) :
    3 * (snapshotHeaderFixed * l.length) + (l.map Qcow2Snapshot.textSize).sum ≤
      3 * (c.1.length - beAt c.1 64 8) := by
  obtain ⟨-, -, hlist⟩ := recordsFrom_of_snapshots h
  rw [hlist]
  split_ifs
  · exact Nat.zero_le _
  · exact recordsFrom_size_le _ _ _

/-- An id byte that begins no character takes three bytes in the listing: the bound is met. -/
def unreadableIdImage : Content :=
  ⟨snapshotHeader 2 1 72 ++ (fixedBytes 0 1 0 ++ [0xFF]), by decide⟩

theorem listing_not_amplified_sample : ∃ l,
    snapshots (File.opened unreadableIdImage) = .ok l ∧ l.length = 1 ∧
      3 * (snapshotHeaderFixed * l.length) + (l.map Qcow2Snapshot.textSize).sum =
        3 * (unreadableIdImage.1.length - 72) ∧
      3 * (snapshotHeaderFixed * l.length) + (l.map Qcow2Snapshot.textSize).sum ≤
        3 * (unreadableIdImage.1.length - beAt unreadableIdImage.1 64 8) := by
  refine ⟨[recordAt unreadableIdImage.1 72 0], ?_, rfl, ?_, listing_not_amplified ?_⟩
  all_goals decide +kernel

end Qcow2
