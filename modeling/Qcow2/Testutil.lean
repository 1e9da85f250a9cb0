import Qcow2.PlainImages
import Qcow2.Truncation

/-! The image builder of the test helpers, read back through the reader, the source and
the auditor. -/

namespace Qcow2

open StdIo

namespace Testutil

def clusterBits : Nat := 9

def clusterSize : Nat := 1 <<< clusterBits

def l1Offset : Nat := 512

def refcountOffset : Nat := 1024

def l2Offset : Nat := 1536

def dataOffset : Nat := 2048

def zeroed : List UInt8 := List.replicate clusterSize 0

def hdr : List UInt8 :=
  let hdr := overwrite zeroed 0 (beBytes 4 magic)
  let hdr := overwrite hdr 4 (beBytes 4 2)
  let hdr := overwrite hdr 20 (beBytes 4 clusterBits)
  let hdr := overwrite hdr 24 (beBytes 8 clusterSize)
  let hdr := overwrite hdr 36 (beBytes 4 1)
  let hdr := overwrite hdr 40 (beBytes 8 l1Offset)
  let hdr := overwrite hdr 48 (beBytes 8 refcountOffset)
  overwrite hdr 56 (beBytes 4 1)

def l1 : List UInt8 := overwrite zeroed 0 (beBytes 8 l2Offset)

def refcount : List UInt8 := zeroed

def l2 : List UInt8 := overwrite zeroed 0 (beBytes 8 dataOffset)

/-- The data cluster: cut off or filled up with zeros. -/
def data (sectorData : List UInt8) : List UInt8 :=
  let n := min sectorData.length clusterSize
  overwrite zeroed 0 (sectorData.take n)

end Testutil

open Testutil in
def testQcow2 (sectorData : List UInt8) : List UInt8 :=
  hdr ++ l1 ++ refcount ++ l2 ++ data sectorData

namespace Testutil

theorem length_zeroed : zeroed.length = 512 := List.length_replicate ..

theorem length_data (sectorData : List UInt8) : (data sectorData).length = 512 := by
  have hsize : clusterSize = 512 := rfl
  rw [data, length_overwrite, length_zeroed]
  rw [List.length_take, length_zeroed]
  omega

theorem getElem?_data (sectorData : List UInt8) {i : Nat} (hi : i < 512) :
    (data sectorData)[i]? = some (sectorData.getD i 0) := by
  have hsize : clusterSize = 512 := rfl
  rw [data, getElem?_overwrite (Nat.zero_le _), List.length_take]
  by_cases h : i < sectorData.length
  · rw [if_pos (by omega), Nat.sub_zero, List.getElem?_take_of_lt (by omega),
      List.getD_eq_getElem?_getD, List.getElem?_eq_getElem h, Option.getD_some]
  · have hzero : zeroed[i]? = some 0 :=
      List.getElem?_replicate_of_lt (show i < clusterSize by omega)
    rw [if_neg (by omega), hzero, List.getD_eq_getElem?_getD, List.getElem?_eq_none (by omega)]
    rfl

/-- Everything before the data cluster, the same in every image. -/
def tables : List UInt8 := hdr ++ l1 ++ refcount ++ l2

theorem length_tables : tables.length = 2048 := by decide +kernel

theorem tables_isPrefix (sectorData : List UInt8) : tables <+: testQcow2 sectorData :=
  ⟨data sectorData, rfl⟩

theorem length_testQcow2 (sectorData : List UInt8) : (testQcow2 sectorData).length = 2560 := by
  rw [show testQcow2 sectorData = tables ++ data sectorData from rfl, List.length_append,
    length_tables, length_data]

theorem beAt_testQcow2 (sectorData : List UInt8) {off n : Nat} (h : off + n ≤ 2048) :
    beAt (testQcow2 sectorData) off n = beAt tables off n :=
  (beAt_of_isPrefix (tables_isPrefix sectorData) (by rw [length_tables]; exact h)).symm

theorem guestByte_testQcow2 (inflate : Inflate) (sectorData : List UInt8) {i : Nat} (hi : i < 512) :
    guestByte inflate (testQcow2 sectorData) i = some (sectorData.getD i 0) := by
  have hbits : beAt (testQcow2 sectorData) 20 4 = 9 :=
    (beAt_testQcow2 sectorData (by omega)).trans (by decide +kernel)
  have hl1Size : beAt (testQcow2 sectorData) 36 4 = 1 :=
    (beAt_testQcow2 sectorData (by omega)).trans (by decide +kernel)
  have hl1Off : beAt (testQcow2 sectorData) 40 8 = 512 :=
    (beAt_testQcow2 sectorData (by omega)).trans (by decide +kernel)
  have hl1 : beAt (testQcow2 sectorData) 512 8 = 1536 :=
    (beAt_testQcow2 sectorData (by omega)).trans (by decide +kernel)
  have hl2 : beAt (testQcow2 sectorData) 1536 8 = 2048 :=
    (beAt_testQcow2 sectorData (by omega)).trans (by decide +kernel)
  have hbyte : (testQcow2 sectorData)[2048 + i]? = some (sectorData.getD i 0) := by
    rw [show testQcow2 sectorData = tables ++ data sectorData from rfl,
      List.getElem?_append_right (by rw [length_tables]; omega), length_tables,
      Nat.add_sub_cancel_left, getElem?_data sectorData hi]
  have hcluster : i / 2 ^ 9 = 0 := by omega
  have hoffset : i % 2 ^ 9 = i := by omega
  have htable : 1536 % 2 ^ 63 = 1536 := by decide
  have hentry : ¬ ((2048).testBit 0 = true ∨ 2048 % 2 ^ 62 = 0) := by decide
  simp only [guestByte, hbits, hl1Size, hl1Off, hcluster, hoffset, Nat.zero_div, Nat.zero_mod,
    Nat.zero_mul, Nat.add_zero, Nat.one_pos, if_true, hl1, htable, hl2, length_testQcow2 sectorData]
  rw [if_neg (by decide), if_neg (by decide), if_neg (by decide), if_neg hentry]
  exact hbyte

/-- No header field of it calls for a finding, and it has no snapshots. -/
theorem header_testQcow2 (sectorData : List UInt8) : PlainHeader (testQcow2 sectorData) ∧
    beAt (testQcow2 sectorData) 4 4 = 2 ∧ beAt (testQcow2 sectorData) 60 4 = 0 := by
  have hf : ∀ {off n x : Nat}, off + n ≤ 2048 → beAt tables off n = x →
      beAt (testQcow2 sectorData) off n = x := fun h hx => (beAt_testQcow2 sectorData h).trans hx
  have hbits : beAt (testQcow2 sectorData) 20 4 = 9 := hf (by omega) (by decide +kernel)
  have hversion : beAt (testQcow2 sectorData) 4 4 = 2 := hf (by omega) (by decide +kernel)
  refine ⟨⟨?_, hf (by omega) (by decide +kernel), .inl hversion, hf (by omega) (by decide +kernel),
    by omega, hf (by omega) (by decide +kernel)⟩, hversion, hf (by omega) (by decide +kernel)⟩
  rw [length_testQcow2]
  omega

theorem opened (sectorData : List UInt8) : ∃ r₀,
    fromBacking (Cursor.mk (testQcow2 sectorData) 0) = .ok r₀ ∧ r₀.virtualDiskSize = 512 := by
  obtain ⟨hplain, hversion, -⟩ := header_testQcow2 sectorData
  have hsize : beAt (testQcow2 sectorData) 24 8 = 512 :=
    (beAt_testQcow2 sectorData (by omega)).trans (by decide +kernel)
  have hl1Size : beAt (testQcow2 sectorData) 36 4 = 1 :=
    (beAt_testQcow2 sectorData (by omega)).trans (by decide +kernel)
  have hl1Off : beAt (testQcow2 sectorData) 40 8 = 512 :=
    (beAt_testQcow2 sectorData (by omega)).trans (by decide +kernel)
  have hlen := length_testQcow2 sectorData
  rw [← hsize]
  exact opened_of_plain hplain hversion (by omega) (by omega)

def onDisk (sectorData : List UInt8) : Content :=
  ⟨testQcow2 sectorData, by rw [length_testQcow2]; omega⟩

def tablesOnDisk : Content := ⟨tables, by rw [length_tables]; omega⟩

theorem tableIn_onDisk (sectorData : List UInt8) {offset n : Nat} {table : List Nat}
    (h : tableIn (Medium.file tablesOnDisk) offset n = .ok table) :
    tableIn (Medium.file (onDisk sectorData)) offset n = .ok table := by
  have hcut : (Medium.file tablesOnDisk).bytes <+: (Medium.file (onDisk sectorData)).bytes := by
    rw [Medium.file_bytes, Medium.file_bytes]
    exact tables_isPrefix sectorData
  exact tableIn_of_isPrefix hcut h

/-- Its one data cluster is allocated and never counted, for the refcount table is all zero. -/
theorem refcountReport_onDisk (sectorData : List UInt8) :
    refcountReport (File.opened (onDisk sectorData)) = .ok ⟨4, 1024, 1, 1, 1⟩ := by
  have hwindow : slice (testQcow2 sectorData) 0 104 = slice tables 0 104 :=
    (slice_of_isPrefix (tables_isPrefix sectorData) (by rw [length_tables]; omega)).symm
  obtain ⟨h, hp, hfields⟩ := exists_ok_map (x := RefcountHeader.parse (slice tables 0 104))
    (f := fun h => (h.clusterBits, h.refcountOrder, h.refcountTableOffset, h.refcountTableClusters,
      h.l1TableOffset, h.l1Size)) (b := (9, 4, 1024, 1, 512, 1)) (by decide +kernel)
  simp only [Prod.mk.injEq] at hfields
  obtain ⟨hbits, horder, hrtOff, hrtClusters, hl1Off, hl1Size⟩ := hfields
  have hcs : h.clusterSize = 512 := by rw [RefcountHeader.clusterSize, hbits]; rfl
  have hrt : h.rtEntries = 64 := by rw [RefcountHeader.rtEntries, hrtClusters, hcs]; rfl
  have hl1 : h.l1Entries = 1 := by rw [RefcountHeader.l1Entries, hl1Size]; rfl
  have hrefcounts : tableIn (Medium.file (onDisk sectorData)) 1024 64 = .ok (List.replicate 64 0) :=
    tableIn_onDisk sectorData (by decide +kernel)
  have hl1Table : tableIn (Medium.file (onDisk sectorData)) 512 1 = .ok [1536] :=
    tableIn_onDisk sectorData (by decide +kernel)
  have hl2Table : tableIn (Medium.file (onDisk sectorData)) 1536 64 =
      .ok (2048 :: List.replicate 63 0) :=
    tableIn_onDisk sectorData (by decide +kernel)
  have hhosts : candidates (Medium.file (onDisk sectorData)) 512 [1536] = [2048] := by
    have hentry : entryOffset 1536 = 1536 := by decide
    simp only [candidates, List.flatMap_cons, List.flatMap_nil, List.append_nil, hentry]
    rw [if_neg (by decide), show 512 / 8 = 64 from rfl, hl2Table]
    decide
  have hcount : refcountIn (Medium.file (onDisk sectorData)) (List.replicate 64 0) 4 512 4 =
      some 0 := by
    have hentry : (List.replicate 64 0)[4 / (512 * 8 / 2 ^ 4)]? = some 0 := by decide
    rw [refcountIn, hentry]
    rfl
  rw [refcountReport_eq, scanOf, Medium.file_bytes,
    show (onDisk sectorData).1 = testQcow2 sectorData from rfl, hwindow, hp]
  simp only [horder, hrtOff, hrt, hl1Off, hl1, hcs, hrefcounts, hl1Table]
  rw [if_neg (by decide), show (Except.ok [1536] : Except Qcow2Error (List Nat)).toOption.getD [] =
    [1536] from rfl, hhosts, List.take_of_length_le (by decide), List.countP_singleton,
    show 2048 / 512 = 4 from rfl, hcount]
  simp only [Except.map, RefcountHeader.report, horder, hrtOff, hrtClusters]
  rfl

theorem auditPath_onDisk (sectorData : List UInt8) :
    auditPath (File.opened (onDisk sectorData)) = .ok [.orphanClusters 1 1] := by
  obtain ⟨hplain, hversion, hcount⟩ := header_testQcow2 sectorData
  exact auditPath_of_plain (c := onDisk sectorData) hplain hversion hcount
    (refcountReport_onDisk sectorData)

end Testutil

/-- Whatever sector it is given, the builder's image opens and is read back as that sector, through
any history of calls on the reader or on the source; the auditor finds its one cluster uncounted
and nothing else. -/
theorem test_qcow2_round_trip {κ : Type} (inflate : Inflate) (sectorData : List UInt8) :
    ∃ r₀, fromBacking (Cursor.mk (testQcow2 sectorData) 0) = .ok r₀ ∧ r₀.virtualDiskSize = 512 ∧
      (∀ cs : List Call, (Qcow2Reader.call inflate).Admits Qcow2Reader.SeekFits cs r₀ →
        ∃ p, Runs (FlatStep (fun i => some (sectorData.getD i 0)) 512) 0 cs
          ((Qcow2Reader.call inflate).run cs r₀).1 p) ∧
      (∀ (cs : List (ReadAtCall κ)) (c : ReadAtCall κ), ∃ out,
        (Qcow2Source.serve inflate c ((Qcow2Source.serve inflate).run cs (.new r₀)).2).1 =
          .ok (min c.buf.length (512 - min c.offset 512), out) ∧
        out.length = c.buf.length ∧ ∀ k, out[k]? =
          if k < min c.buf.length (512 - min c.offset 512) then some (sectorData.getD (c.offset + k) 0)
          else c.buf[k]?) ∧
      auditPath (File.opened (Testutil.onDisk sectorData)) = .ok [.orphanClusters 1 1] := by
  obtain ⟨r₀, h, hsize⟩ := Testutil.opened sectorData
  have hbyte : ∀ i, i < r₀.virtualDiskSize → guestByte inflate (testQcow2 sectorData) i =
      some (sectorData.getD i 0) := by
    intro i hi
    exact Testutil.guestByte_testQcow2 inflate sectorData (by omega)
  refine ⟨r₀, h, hsize, ?_, ?_, Testutil.auditPath_onDisk sectorData⟩
  · intro cs hcs
    have hrun := history_reads_back h hbyte hcs
    rwa [hsize] at hrun
  · intro cs c
    have hread := read_at_reads_back h (by omega) hbyte (fun i _ => Option.some_ne_none _) cs c
    rwa [hsize] at hread

end Qcow2
