import Qcow2.HeaderAgreement
import Qcow2.Source

/-! Images of version 2 without a backing file, encryption or snapshots: they open, only the
refcount report can hold a finding about them, and known guest bytes are read back. -/

namespace Qcow2

open StdIo

theorem opened_of_plain {image : List UInt8} (hplain : PlainHeader image)
    (hversion : beAt image 4 4 = 2) (hcap : beAt image 36 4 ≤ 2 ^ 20)
    (hin : beAt image 40 8 + beAt image 36 4 * 8 ≤ image.length) : ∃ r₀,
    fromBacking (Cursor.mk image 0) = .ok r₀ ∧ r₀.virtualDiskSize = beAt image 24 8 := by
  obtain ⟨hdr, hp⟩ : ∃ hdr, Qcow2Header.parse (slice image 0 104) = .ok hdr := by
    refine Qcow2Header.parse_isOk_iff.mpr ⟨(plainHeader_window (by omega)).mpr hplain, ?_⟩
    rw [beAt_window _ (by omega), hversion]
    omega
  obtain ⟨-, -, -, -, -, hl1Size, hl1Off⟩ := Qcow2Header.parse_window hp
  have hmax : maxL1Entries = 2 ^ 20 := rfl
  have hload : ∃ bs, (Medium.memory image).readExactAt hdr.l1TableOffset (hdr.l1Size * 8) = .ok bs := by
    have herr := (Medium.memory image).readExactAt_error_iff hdr.l1TableOffset (hdr.l1Size * 8)
    cases hr : (Medium.memory image).readExactAt hdr.l1TableOffset (hdr.l1Size * 8) with
    | ok bs => exact ⟨bs, rfl⟩
    | error e =>
      rw [hr, Medium.memory_bytes, length_slice] at herr
      rcases herr.mp ⟨e, rfl⟩ with hfar | hshort
      · cases hfar
      · omega
  obtain ⟨bs, hbs⟩ := hload
  obtain ⟨f, -, heq⟩ := fromBacking_eq (serves_cursor image) (Cursor.on_start image)
  have hopen : openedLayout (Medium.memory image) = .ok (Layout.ofHeader hdr bs) := by
    rw [openedLayout, Medium.memory_bytes, hp]
    simp only [if_neg (show ¬ maxL1Entries < hdr.l1Size by omega), hbs]
    rfl
  rw [hopen] at heq
  exact ⟨_, heq, (opened_image heq).2.2⟩

theorem auditPath_of_plain {c : Content} (hplain : PlainHeader c.1) (hversion : beAt c.1 4 4 = 2)
    (hcount : beAt c.1 60 4 = 0) {report : Qcow2RefcountReport}
    (hreport : refcountReport (File.opened c) = .ok report) :
    auditPath (File.opened c) = .ok (auditOrphans report).toList := by
  have hlen := hplain.long
  obtain ⟨info, hinfo⟩ := Qcow2Info.parse_isOk_iff.mpr
    ⟨hlen, hplain.magic_eq, by omega, by omega⟩
  obtain ⟨h4, -, -, -, h8, h32, h60, h72⟩ := Qcow2Info.parse_fields hinfo (by omega)
  rw [hversion] at h4
  rw [hplain.noBacking] at h8
  rw [hplain.noCrypt] at h32
  rw [hcount] at h60
  rw [hversion, if_neg (by omega)] at h72
  have hnone : audit info = [] := by simp [audit, pushIf, h4, h8, h32, h60, h72]
  have hsnapshots : snapshots (File.opened c) = .ok [] := by
    rw [snapshots_eq, snapshotsIn, minHeaderSize, if_neg (by omega),
      if_neg (not_not.mpr hplain.magic_eq), if_pos (.inl hcount)]
  rw [auditPath, inspect_opened, hinfo, hsnapshots, hreport]
  simp only [bind, Except.bind, hnone]
  rfl

section ReadBack

variable {inflate : Inflate} {image : List UInt8} {r₀ : Qcow2Reader Cursor}
  {D : Nat → Option UInt8}

theorem history_reads_back (h : fromBacking (Cursor.mk image 0) = .ok r₀)
    (hbyte : ∀ i, i < r₀.virtualDiskSize → guestByte inflate image i = D i) {cs : List Call}
    (hcs : (Qcow2Reader.call inflate).Admits Qcow2Reader.SeekFits cs r₀) :
    ∃ p, Runs (FlatStep D r₀.virtualDiskSize) 0 cs
      ((Qcow2Reader.call inflate).run cs r₀).1 p := by
  have hstep : ∀ (r : Qcow2Reader Cursor) (p : Nat) (c : Call),
      Qcow2Reader.At (Cursor.On image) r₀.toLayout p r → Qcow2Reader.SeekFits c r → _ :=
    fun _ _ c hr hc => Qcow2Reader.call_flatStep inflate (serves_cursor image) hr c hc
  obtain ⟨p, hrun, -⟩ := Machine.simulates hstep (opened_image h).1 hcs
  rw [opened_disk_get? inflate h] at hrun
  exact ⟨p, hrun.mono fun _ _ _ _ hstep => hstep.congr hbyte⟩

theorem read_at_reads_back {κ : Type} (h : fromBacking (Cursor.mk image 0) = .ok r₀)
    (hsize : r₀.virtualDiskSize < 2 ^ 63)
    (hbyte : ∀ i, i < r₀.virtualDiskSize → guestByte inflate image i = D i)
    (hsome : ∀ i, i < r₀.virtualDiskSize → D i ≠ none)
    (cs : List (ReadAtCall κ)) (c : ReadAtCall κ) : ∃ out,
    (Qcow2Source.serve inflate c ((Qcow2Source.serve inflate).run cs (.new r₀)).2).1 =
        .ok (min c.buf.length (r₀.virtualDiskSize - min c.offset r₀.virtualDiskSize), out) ∧
      out.length = c.buf.length ∧ ∀ k, out[k]? =
        if k < min c.buf.length (r₀.virtualDiskSize - min c.offset r₀.virtualDiskSize) then
          D (c.offset + k)
        else c.buf[k]? := by
  have S := serves_cursor image
  have hs := (Qcow2Source.serve_run inflate S (Qcow2Source.new_standing (opened_image h).1) cs).2
  have hget := opened_disk_get? inflate h
  have hdisk : (r₀.guestMap.disk (Medium.memory image) inflate).size = r₀.virtualDiskSize := rfl
  have hdefined : ∀ i, i < (r₀.guestMap.disk (Medium.memory image) inflate).size →
      (r₀.guestMap.disk (Medium.memory image) inflate).get? i ≠ none := by
    rw [hdisk, hget]
    intro i hi
    rw [hbyte i hi]
    exact hsome i hi
  obtain ⟨out, hout, hlen, hbytes⟩ :=
    @readAtOf_of_defined _ c.offset c.buf (by omega) hdefined
  rw [hdisk] at hout hbytes
  rw [(Qcow2Source.serve_answer inflate S hs c).1]
  refine ⟨out, hout, hlen, fun k => ?_⟩
  rw [hbytes k, hget]
  split_ifs with hk
  · exact hbyte _ (by omega)
  · rfl

end ReadBack

end Qcow2
