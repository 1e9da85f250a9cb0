import Qcow2.RefcountRefines
import Qcow2.ReaderRefines

/-! When the report accuses no cluster, and when it fails on a table it cannot read. -/

namespace Qcow2

open StdIo

def NoneUnreferenced (c : Content) : Prop :=
  ∀ h refcountTable, RefcountHeader.parse (slice c.1 0 104) = .ok h → h.refcountOrder ≤ 6 →
    tableIn (Medium.file c) h.refcountTableOffset h.rtEntries = .ok refcountTable →
    ∀ o ∈ (candidates (Medium.file c) h.clusterSize
        ((tableIn (Medium.file c) h.l1TableOffset h.l1Entries).toOption.getD [])).take
          maxClustersScanned,
      refcountIn (Medium.file c) refcountTable h.refcountOrder h.clusterSize (o / h.clusterSize) ≠
        some 0

theorem no_orphans_iff (c : Content) :
    ((∃ e, refcountReport (File.opened c) = .error e) ∨
      ∃ report, refcountReport (File.opened c) = .ok report ∧ report.orphanClusters = 0) ↔
    NoneUnreferenced c := by
  rw [refcountReport_eq, scanOf, NoneUnreferenced, Medium.file_bytes]
  cases hp : RefcountHeader.parse (slice c.1 0 104) with
  | error e => simp [Except.map]
  | ok h =>
    by_cases hbig : 6 < h.refcountOrder
    · simp only [if_pos hbig, Except.map, RefcountHeader.report]
      constructor
      · intro _ h' t hh horder
        cases hh
        omega
      · intro _
        exact .inr ⟨_, rfl, rfl⟩
    · simp only [if_neg hbig]
      rcases tableIn_cases (Medium.file c) h.refcountTableOffset h.rtEntries with ⟨e, he⟩ | ⟨t, ht⟩
      · simp only [he, Except.map]
        constructor
        · intro _ h' t hh _ ht
          cases hh
          rw [he] at ht
          cases ht
        · intro _
          exact .inl ⟨_, rfl⟩
      · simp only [ht, Except.map, RefcountHeader.report, reduceCtorEq, exists_false, false_or,
          Except.ok.injEq, exists_eq_left', List.countP_eq_zero, decide_eq_true_eq]
        constructor
        · intro hnone h' t' hh _ ht'
          cases hh
          rw [ht] at ht'
          cases ht'
          exact hnone
        · intro hnone
          exact hnone h t rfl (by omega) ht

/-- An active L1 table within the cap that does not lie wholly in the file. -/
def L1Outside (c : Content) (h : RefcountHeader) : Prop :=
  h.l1TableOffset ≠ 0 ∧ 1 ≤ h.l1Size ∧ h.l1Size ≤ 2 ^ 20 ∧
    c.1.length < h.l1TableOffset + h.l1Size * 8

def L1Unreadable (c : Content) : Prop :=
  ∃ hdr, Qcow2Header.parse (slice c.1 0 104) = .ok hdr ∧ hdr.l1Size ≤ 2 ^ 20 ∧
    (2 ^ 63 ≤ hdr.l1TableOffset ∨
      1 ≤ hdr.l1Size ∧ c.1.length < hdr.l1TableOffset + hdr.l1Size * 8)

theorem open_io_error_iff (c : Content) :
    (∃ e, fromBacking (File.opened c) = .error (.io e)) ↔ L1Unreadable c := by
  obtain ⟨f, -, heq⟩ := fromBacking_eq (serves_file c) (File.on_opened c)
  have hread : ∀ off n, (∃ e, (Medium.file c).readExactAt off (n * 8) = .error e) ↔
      2 ^ 63 ≤ off ∨ 1 ≤ n ∧ c.1.length < off + n * 8 := by
    intro off n
    have hlen := length_slice c.1 off (n * 8)
    have hfar : (Medium.file c).seekable off = false ↔ 2 ^ 63 ≤ off := by
      rw [Medium.file_seekable, decide_eq_false_iff_not, not_lt]
    rw [Medium.readExactAt_error_iff, hfar, Medium.file_bytes]
    have hfile := c.2
    omega
  rw [heq, openedLayout, L1Unreadable, Medium.file_bytes]
  cases hp : Qcow2Header.parse (slice c.1 0 104) with
  | error e =>
    have hne : ∀ e', e ≠ .io e' := by
      intro e' he
      exact Qcow2Header.parse_ne_io (slice c.1 0 104) e' (by rw [hp, he])
    simp [Except.map, hne]
  | ok hdr =>
    have hmax : maxL1Entries = 2 ^ 20 := rfl
    simp only [Except.ok.injEq, exists_eq_left', ← hread]
    by_cases hbig : maxL1Entries < hdr.l1Size
    · simp only [if_pos hbig, Except.map, Except.error.injEq, reduceCtorEq, exists_false,
        false_iff, not_and]
      omega
    · simp only [if_neg hbig]
      cases (Medium.file c).readExactAt hdr.l1TableOffset (hdr.l1Size * 8) with
      | error e =>
        simp only [Except.mapError, Except.map, Except.error.injEq, Qcow2Error.io.injEq,
          exists_eq', and_true, true_iff]
        omega
      | ok bs => simp [Except.mapError, Except.map]

/-- Behind the header checks, with a refcount width the report supports: it fails on
every bootstrap table outside the file, and wherever the strict reader fails on its L1
table, exactly when the refcount table is outside or the L1 table is readable. -/
theorem bootstrap_failure_iff {c : Content} {h : RefcountHeader}
    (hp : RefcountHeader.parse (slice c.1 0 104) = .ok h) (horder : h.refcountOrder ≤ 6) :
    ((RtOutside c h ∨ L1Outside c h →
        ∃ e, refcountReport (File.opened c) = .error (.io e)) ∧
      ((∃ e, fromBacking (File.opened c) = .error (.io e)) →
        ∃ e, refcountReport (File.opened c) = .error e)) ↔
      RtOutside c h ∨ ¬ L1Outside c h ∧ ¬ L1Unreadable c := by
  have herr := refcountReport_error_iff hp
  rw [open_io_error_iff, herr]
  have hany : (∃ e, refcountReport (File.opened c) = .error e) ↔ RtOutside c h := by
    constructor
    · intro he
      obtain ⟨e, he⟩ := he
      by_contra hin
      obtain ⟨report, hr⟩ := refcountReport_ok hp (.inr hin)
      rw [hr] at he
      cases he
    · intro hout
      obtain ⟨e, he⟩ := herr.mpr ⟨horder, hout⟩
      exact ⟨_, he⟩
  rw [hany]
  constructor
  · intro hall
    by_cases hout : RtOutside c h
    · exact .inl hout
    · exact .inr ⟨fun hl1 => hout (hall.1 (.inr hl1)).2, fun hl1 => hout (hall.2 hl1)⟩
  · intro hcond
    rcases hcond with hout | ⟨hl1, hopen⟩
    · exact ⟨fun _ => ⟨horder, hout⟩, fun _ => hout⟩
    · refine ⟨?_, fun hl1' => absurd hl1' hopen⟩
      intro hout
      rcases hout with hout | hl1'
      · exact ⟨horder, hout⟩
      · exact absurd hl1' hl1

/-- One L1 entry, its table past the end of the file. -/
def lostL1Image : Content := ⟨headerBytes 2 9 512 1 4096 0 0, by simp⟩

theorem lostL1Image_header : ∃ h, RefcountHeader.parse (slice lostL1Image.1 0 104) = .ok h ∧
    h.refcountOrder = 4 ∧ h.l1TableOffset = 4096 ∧ h.l1Size = 1 := by
  obtain ⟨h, hp, hfields⟩ := exists_ok_map (x := RefcountHeader.parse (slice lostL1Image.1 0 104))
    (f := fun h => (h.refcountOrder, h.l1TableOffset, h.l1Size)) (b := (4, 4096, 1)) (by decide)
  simp only [Prod.mk.injEq] at hfields
  exact ⟨h, hp, hfields⟩

theorem bootstrap_failure_iff_sample :
    ∃ h, RefcountHeader.parse (slice lostL1Image.1 0 104) = .ok h ∧
      (((RtOutside lostL1Image h ∨ L1Outside lostL1Image h →
          ∃ e, refcountReport (File.opened lostL1Image) = .error (.io e)) ∧
        ((∃ e, fromBacking (File.opened lostL1Image) = .error (.io e)) →
          ∃ e, refcountReport (File.opened lostL1Image) = .error e)) ↔
        RtOutside lostL1Image h ∨ ¬ L1Outside lostL1Image h ∧ ¬ L1Unreadable lostL1Image) := by
  obtain ⟨h, hp, horder, -⟩ := lostL1Image_header
  exact ⟨h, hp, bootstrap_failure_iff hp (by omega)⟩

theorem lost_l1_reported_clean :
    (∃ h, RefcountHeader.parse (slice lostL1Image.1 0 104) = .ok h ∧ h.refcountOrder ≤ 6 ∧
      L1Outside lostL1Image h) ∧
    (refcountReport (File.opened lostL1Image)).toOption.map
      (fun report => (report.allocatedClusters, report.orphanClusters)) = some (0, 0) ∧
    ∃ e, fromBacking (File.opened lostL1Image) = .error (.io e) := by
  obtain ⟨h, hp, horder, hoff, hsize⟩ := lostL1Image_header
  have hlen : lostL1Image.1.length = 72 := length_headerBytes _ _ _ _ _ _ _
  refine ⟨⟨h, hp, by omega, by omega, by omega, by omega, by omega⟩, by decide +kernel, ?_⟩
  obtain ⟨hdr, hparse, hlost⟩ := exists_ok_map (x := Qcow2Header.parse (slice lostL1Image.1 0 104))
    (f := fun hdr => (hdr.l1Size, hdr.l1TableOffset)) (b := (1, 4096)) (by decide)
  simp only [Prod.mk.injEq] at hlost
  exact (open_io_error_iff lostL1Image).mpr ⟨hdr, hparse, by omega, .inr (by omega)⟩

end Qcow2
