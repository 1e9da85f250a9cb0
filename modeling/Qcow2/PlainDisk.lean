import Mathlib.Algebra.Order.Floor.Div
import Mathlib.Tactic.Ring
import Qcow2.Findings
import Qcow2.PlainImages
import Qcow2.RefcountAddressing

/-! Any disk within the caps has an image: the format's plain layout, every cluster allocated and
counted once, read back through the reader and the source and passed by the auditor. -/

namespace Qcow2

open StdIo

theorem RefcountHeader.refcountOrder_of_version {bytes : List UInt8} {h : RefcountHeader}
    (hp : parse (slice bytes 0 104) = .ok h) (hversion : beAt bytes 4 4 = 2) :
    h.refcountOrder = 4 := by
  have hlen := (parse_ok hp).1
  have h4 : beU32 (slice bytes 0 104) 4 = 2 := (beUint_header (by omega) hlen (by omega)).trans hversion
  simp only [parse, h4] at hp
  split_ifs at hp
  · omega
  · cases hp
    rfl

/-- A disk that an image with clusters of `2 ^ clusterBits` bytes can hold within the reader's cap
on the L1 table and the 56 bits of a host offset. -/
structure PlainDisk where
  clusterBits : Nat
  bytes : List UInt8
  clusterBits_range : 9 ≤ clusterBits ∧ clusterBits ≤ 20
  length_le : bytes.length ≤ 2 ^ (2 * clusterBits + 17) ∧ bytes.length ≤ 2 ^ 55

theorem le_ceilDiv_mul {m : Nat} (hm : 0 < m) (n : Nat) : n ≤ n ⌈/⌉ m * m := by
  rw [Nat.mul_comm]
  exact le_smul_ceilDiv hm

theorem ceilDiv_mul_lt {m : Nat} (hm : 0 < m) (n : Nat) : n ⌈/⌉ m * m < n + m := by
  have hle := Nat.div_mul_le_self (n + m - 1) m
  rw [Nat.ceilDiv_eq_add_pred_div]
  omega

theorem ceilDiv_le_of_le_mul {m n k : Nat} (hm : 0 < m) (h : n ≤ k * m) : n ⌈/⌉ m ≤ k := by
  rw [ceilDiv_le_iff_le_mul hm, Nat.mul_comm]
  exact h

namespace PlainDisk

section Layout

variable (d : PlainDisk)

def clusterSize : Nat := 2 ^ d.clusterBits

/-- The entries of a table cluster. -/
def slots : Nat := 2 ^ (d.clusterBits - 3)

/-- The 16-bit refcounts of a block. -/
def perBlock : Nat := 2 ^ (d.clusterBits - 1)

def dataClusters : Nat := d.bytes.length ⌈/⌉ d.clusterSize

def l2Tables : Nat := d.dataClusters ⌈/⌉ d.slots

def l1Clusters : Nat := d.l2Tables ⌈/⌉ d.slots

-- the parts of the image in their order, each from a cluster of its own

def l2Start : Nat := 1 + d.l1Clusters

def dataStart : Nat := d.l2Start + d.l2Tables

def tableStart : Nat := d.dataStart + d.dataClusters

/-- Enough refcount blocks for all that precedes them, for their table and for themselves. -/
def blocks : Nat := d.tableStart / (d.perBlock - 2) + 1

def tableClusters : Nat := d.blocks ⌈/⌉ d.slots

def blockStart : Nat := d.tableStart + d.tableClusters

def clusters : Nat := d.blockStart + d.blocks

def l1Word (k : Nat) : Nat :=
  if k < d.l2Tables then 2 ^ 63 + (d.l2Start + k) * d.clusterSize else 0

def l2Word (k : Nat) : Nat :=
  if k < d.dataClusters then 2 ^ 63 + (d.dataStart + k) * d.clusterSize else 0

def tableWord (k : Nat) : Nat := if k < d.blocks then (d.blockStart + k) * d.clusterSize else 0

def refcountWord (k : Nat) : Nat := if k < d.clusters then 1 else 0

/-- Version 2, no backing file, no encryption, no snapshots. -/
def fields : List (Nat × Nat) :=
  [(4, magic), (4, 2), (8, 0), (4, 0), (4, d.clusterBits), (8, d.bytes.length), (4, 0),
    (4, d.l2Tables), (8, d.clusterSize), (8, d.tableStart * d.clusterSize), (4, d.tableClusters),
    (4, 0), (8, 0)]

def header : List UInt8 := beFields d.fields ++ List.replicate (d.clusterSize - 72) 0

def l1 : List UInt8 := beArray 8 (d.l1Clusters * d.slots) d.l1Word

def l2 : List UInt8 := beArray 8 (d.l2Tables * d.slots) d.l2Word

def data : List UInt8 :=
  d.bytes ++ List.replicate (d.dataClusters * d.clusterSize - d.bytes.length) 0

def table : List UInt8 := beArray 8 (d.tableClusters * d.slots) d.tableWord

def refcounts : List UInt8 := beArray 2 (d.blocks * d.perBlock) d.refcountWord

def image : List UInt8 := d.header ++ (d.l1 ++ (d.l2 ++ (d.data ++ (d.table ++ d.refcounts))))

end Layout

section Sizes

variable (d : PlainDisk)

theorem slots_mul : d.slots * 8 = d.clusterSize := by
  have hrange := d.clusterBits_range
  rw [slots, clusterSize, show 8 = 2 ^ 3 from rfl, ← Nat.pow_add]
  congr 1
  omega

theorem perBlock_mul : d.perBlock * 2 = d.clusterSize := by
  have hrange := d.clusterBits_range
  rw [perBlock, clusterSize, ← Nat.pow_succ]
  congr 1
  omega

theorem clusterSize_bounds : 2 ^ 9 ≤ d.clusterSize ∧ d.clusterSize ≤ 2 ^ 20 := by
  have hrange := d.clusterBits_range
  exact ⟨Nat.pow_le_pow_right (by omega) hrange.1, Nat.pow_le_pow_right (by omega) hrange.2⟩

theorem slots_pos : 0 < d.slots := Nat.two_pow_pos _

theorem length_le_data : d.bytes.length ≤ d.dataClusters * d.clusterSize :=
  le_ceilDiv_mul (Nat.two_pow_pos _) _

theorem dataClusters_le : d.dataClusters ≤ d.l2Tables * d.slots := le_ceilDiv_mul d.slots_pos _

theorem l2Tables_le : d.l2Tables ≤ d.l1Clusters * d.slots := le_ceilDiv_mul d.slots_pos _

theorem blocks_le : d.blocks ≤ d.tableClusters * d.slots := le_ceilDiv_mul d.slots_pos _

/-- The refcount blocks have a field for every cluster of the image. -/
theorem clusters_le : d.clusters ≤ d.blocks * d.perBlock := by
  have hsize := d.clusterSize_bounds
  have hper := d.perBlock_mul
  have htable : d.tableClusters ≤ d.blocks :=
    ceilDiv_le_of_le_mul d.slots_pos (Nat.le_mul_of_pos_right _ d.slots_pos)
  have hcover : d.tableStart < d.blocks * (d.perBlock - 2) := by
    rw [blocks, Nat.mul_comm]
    exact Nat.lt_mul_div_succ _ (by omega)
  have hsplit : d.blocks * (d.perBlock - 2) + d.blocks * 2 = d.blocks * d.perBlock := by
    rw [← Nat.mul_add, Nat.sub_add_cancel (by omega)]
  rw [clusters, blockStart]
  omega

theorem l2Tables_capped : d.l2Tables ≤ 2 ^ 20 := by
  have hrange := d.clusterBits_range
  refine ceilDiv_le_of_le_mul d.slots_pos (ceilDiv_le_of_le_mul (Nat.two_pow_pos _) ?_)
  refine d.length_le.1.trans_eq ?_
  rw [slots, clusterSize, ← Nat.pow_add, ← Nat.pow_add]
  congr 1
  omega

/-- Every offset of the image fits the 56 bits of a host offset. -/
theorem clusters_mul_le : d.clusters * d.clusterSize ≤ 2 ^ 56 := by
  have hsize := d.clusterSize_bounds
  have hper := d.perBlock_mul
  have hlen := d.length_le.2
  have hcapped := d.l2Tables_capped
  have hdata : d.dataClusters * d.clusterSize < d.bytes.length + d.clusterSize :=
    ceilDiv_mul_lt (Nat.two_pow_pos _) _
  have hl1 : d.l1Clusters ≤ d.l2Tables :=
    ceilDiv_le_of_le_mul d.slots_pos (Nat.le_mul_of_pos_right _ d.slots_pos)
  have htable : d.tableClusters ≤ d.blocks :=
    ceilDiv_le_of_le_mul d.slots_pos (Nat.le_mul_of_pos_right _ d.slots_pos)
  have htables : (1 + d.l1Clusters + d.l2Tables) * d.clusterSize ≤ (1 + 2 ^ 21) * 2 ^ 20 :=
    Nat.mul_le_mul (by omega) hsize.2
  have hblocks : d.blocks * 254 ≤ d.tableStart + 254 := by
    have hdiv : d.tableStart / (d.perBlock - 2) ≤ d.tableStart / 254 :=
      Nat.div_le_div_left (by omega) (by omega)
    rw [blocks]
    omega
  have hstart : d.tableStart * d.clusterSize ≤ 2 ^ 55 + 2 ^ 42 := by
    rw [tableStart, dataStart, l2Start, Nat.add_mul]
    omega
  have hblocks' : d.blocks * d.clusterSize * 254 ≤ d.tableStart * d.clusterSize + 254 * d.clusterSize := by
    rw [Nat.mul_right_comm, ← Nat.add_mul]
    exact Nat.mul_le_mul_right _ hblocks
  have htable' : d.tableClusters * d.clusterSize ≤ d.blocks * d.clusterSize :=
    Nat.mul_le_mul_right _ htable
  rw [clusters, blockStart, Nat.add_mul, Nat.add_mul]
  omega

/-- The refcount table is within the cap on the report's tables. -/
theorem tableEntries_capped : d.tableClusters * d.slots ≤ 2 ^ 20 := by
  have hsize := d.clusterSize_bounds
  have hslots := d.slots_mul
  have hper := d.perBlock_mul
  have hcapped := d.l2Tables_capped
  have hl1 : d.l1Clusters ≤ d.l2Tables :=
    ceilDiv_le_of_le_mul d.slots_pos (Nat.le_mul_of_pos_right _ d.slots_pos)
  have hdata : d.dataClusters ≤ 2 ^ 20 * d.slots :=
    d.dataClusters_le.trans (Nat.mul_le_mul_right _ hcapped)
  have hround : d.tableClusters * d.slots < d.blocks + d.slots := ceilDiv_mul_lt d.slots_pos _
  have hblocks : d.tableStart / (d.perBlock - 2) ≤ (2 ^ 20 + 2 ^ 16) / 3 := by
    have hstart : d.tableStart ≤ (2 ^ 20 + 2 ^ 16) * d.slots := by
      rw [tableStart, dataStart, l2Start]
      omega
    calc d.tableStart / (d.perBlock - 2)
        ≤ (2 ^ 20 + 2 ^ 16) * d.slots / (3 * d.slots) :=
          Nat.div_le_div hstart (by omega) (by omega)
      _ = (2 ^ 20 + 2 ^ 16) / 3 := Nat.mul_div_mul_right _ _ d.slots_pos
  rw [blocks] at hround
  omega

end Sizes

section Parts

variable (d : PlainDisk)

@[simp] theorem length_header : d.header.length = d.clusterSize := by
  have hsize := d.clusterSize_bounds
  have hfields : (beFields d.fields).length = 72 := length_beFields _
  rw [header, List.length_append, hfields, List.length_replicate]
  omega

@[simp] theorem length_l1 : d.l1.length = d.l1Clusters * d.clusterSize := by
  rw [l1, length_beArray, Nat.mul_assoc, d.slots_mul]

@[simp] theorem length_l2 : d.l2.length = d.l2Tables * d.clusterSize := by
  rw [l2, length_beArray, Nat.mul_assoc, d.slots_mul]

@[simp] theorem length_data : d.data.length = d.dataClusters * d.clusterSize := by
  have hle := d.length_le_data
  rw [data, List.length_append, List.length_replicate]
  omega

@[simp] theorem length_table : d.table.length = d.tableClusters * d.clusterSize := by
  rw [table, length_beArray, Nat.mul_assoc, d.slots_mul]

@[simp] theorem length_refcounts : d.refcounts.length = d.blocks * d.clusterSize := by
  rw [refcounts, length_beArray, Nat.mul_assoc, d.perBlock_mul]

theorem length_image : d.image.length = d.clusters * d.clusterSize := by
  simp only [image, List.length_append, length_header, length_l1, length_l2, length_data,
    length_table, length_refcounts, clusters, blockStart, tableStart, dataStart, l2Start, Nat.add_mul,
    Nat.one_mul, Nat.add_assoc]

theorem offset_le {k : Nat} (hk : k < d.clusters) :
    k * d.clusterSize + d.clusterSize ≤ d.image.length ∧ d.image.length ≤ 2 ^ 56 := by
  rw [length_image, ← Nat.succ_mul]
  exact ⟨Nat.mul_le_mul_right _ hk, d.clusters_mul_le⟩

theorem beAt_array (pre post : List UInt8) {n count k : Nat} {f : Nat → Nat} (hk : k < count)
    (hf : f k < 256 ^ n) :
    beAt (pre ++ (beArray n count f ++ post)) (pre.length + k * n) n = f k := by
  have hle : (k + 1) * n ≤ count * n := Nat.mul_le_mul_right n hk
  rw [Nat.succ_mul] at hle
  rw [beAt_part _ _ _ (by rw [length_beArray]; omega), beAt_beArray hk hf]

theorem l1_inside : d.clusterSize + d.l2Tables * 8 ≤ d.image.length := by
  have hle : d.l2Tables * 8 ≤ d.l1Clusters * d.clusterSize := by
    rw [← d.slots_mul, ← Nat.mul_assoc]
    exact Nat.mul_le_mul_right _ d.l2Tables_le
  have hblocks : 0 < d.blocks := Nat.succ_pos _
  have hlast := d.offset_le (k := d.l1Clusters)
    (by rw [clusters, blockStart, tableStart, dataStart, l2Start]; omega)
  omega

theorem beAt_l1 {k : Nat} (hk : k < d.l2Tables) :
    beAt d.image (d.clusterSize + k * 8) 8 = 2 ^ 63 + (d.l2Start + k) * d.clusterSize := by
  have hword : d.l1Word k = 2 ^ 63 + (d.l2Start + k) * d.clusterSize := if_pos hk
  have hoff := d.offset_le (k := d.l2Start + k)
    (by rw [clusters, blockStart, tableStart, dataStart]; omega)
  have hpart := beAt_array d.header (d.l2 ++ (d.data ++ (d.table ++ d.refcounts)))
    (n := 8) (hk.trans_le d.l2Tables_le) (show d.l1Word k < 2 ^ 64 by omega)
  rw [length_header] at hpart
  rw [← hword, ← hpart]
  rfl

theorem beAt_l2 {k : Nat} (hk : k < d.l2Tables * d.slots) :
    beAt d.image (d.l2Start * d.clusterSize + k * 8) 8 = d.l2Word k := by
  have hlt : d.l2Word k < 2 ^ 64 := by
    unfold l2Word
    split_ifs with hdata
    · have hoff := d.offset_le (k := d.dataStart + k)
        (by rw [clusters, blockStart, tableStart]; omega)
      omega
    · omega
  have hpart := beAt_array (d.header ++ d.l1) (d.data ++ (d.table ++ d.refcounts))
    (n := 8) hk hlt
  have hlen : (d.header ++ d.l1).length = d.l2Start * d.clusterSize := by
    rw [List.length_append, length_header, length_l1, l2Start, Nat.add_mul, Nat.one_mul]
  rw [hlen, List.append_assoc] at hpart
  exact hpart

theorem getElem?_data {i : Nat} (hi : i < d.bytes.length) :
    d.image[d.dataStart * d.clusterSize + i]? = d.bytes[i]? := by
  have hlen : (d.header ++ (d.l1 ++ d.l2)).length = d.dataStart * d.clusterSize := by
    simp only [List.length_append, length_header, length_l1, length_l2, dataStart, l2Start,
      Nat.add_mul, Nat.one_mul, Nat.add_assoc]
  have himage : d.image = (d.header ++ (d.l1 ++ d.l2)) ++ (d.data ++ (d.table ++ d.refcounts)) := by
    simp only [image, List.append_assoc]
  rw [himage, ← hlen, List.getElem?_append_right (Nat.le_add_right _ _), Nat.add_sub_cancel_left,
    data, List.append_assoc, List.getElem?_append_left hi]

theorem beAt_table {k : Nat} (hk : k < d.blocks) :
    beAt d.image (d.tableStart * d.clusterSize + k * 8) 8 = (d.blockStart + k) * d.clusterSize := by
  have hword : d.tableWord k = (d.blockStart + k) * d.clusterSize := if_pos hk
  have hoff := d.offset_le (k := d.blockStart + k) (by rw [clusters]; omega)
  have hpart := beAt_array (d.header ++ (d.l1 ++ (d.l2 ++ d.data))) d.refcounts
    (n := 8) (hk.trans_le d.blocks_le) (show d.tableWord k < 2 ^ 64 by omega)
  have hlen : (d.header ++ (d.l1 ++ (d.l2 ++ d.data))).length = d.tableStart * d.clusterSize := by
    simp only [List.length_append, length_header, length_l1, length_l2, length_data, tableStart,
      dataStart, l2Start, Nat.add_mul, Nat.one_mul, Nat.add_assoc]
  rw [hlen] at hpart
  rw [← hword, ← hpart]
  simp only [image, table, List.append_assoc]

theorem beAt_refcounts {k : Nat} (hk : k < d.clusters) :
    beAt d.image (d.blockStart * d.clusterSize + k * 2) 2 = 1 := by
  have hword : d.refcountWord k = 1 := if_pos hk
  have hpart := beAt_array (d.header ++ (d.l1 ++ (d.l2 ++ (d.data ++ d.table)))) []
    (n := 2) (hk.trans_le d.clusters_le) (show d.refcountWord k < 256 ^ 2 by omega)
  have hlen : (d.header ++ (d.l1 ++ (d.l2 ++ (d.data ++ d.table)))).length =
      d.blockStart * d.clusterSize := by
    simp only [List.length_append, length_header, length_l1, length_l2, length_data, length_table,
      blockStart, tableStart, dataStart, l2Start, Nat.add_mul, Nat.one_mul, Nat.add_assoc]
  rw [hlen, hword] at hpart
  rw [← hpart]
  simp only [image, refcounts, List.append_assoc, List.append_nil]

theorem beAt_field {k off n x : Nat} (hk : d.fields[k]? = some (n, x))
    (hoff : ((d.fields.take k).map Prod.fst).sum = off) (hx : x < 256 ^ n) :
    beAt d.image off n = x := by
  obtain ⟨hlt, hget⟩ := List.getElem?_eq_some_iff.mp hk
  have hsplit : d.fields = d.fields.take k ++ (n, x) :: d.fields.drop (k + 1) := by
    rw [← hget, List.getElem_cons_drop, List.take_append_drop]
  have hfield := @beAt_beFields (d.fields.take k) (d.fields.drop (k + 1)) n x hx
  rw [← hsplit, hoff] at hfield
  have hin : off + n ≤ (beFields d.fields).length := by
    have hsum := congrArg (fun fs => (fs.map Prod.fst).sum) hsplit
    simp only [List.map_append, List.sum_append, List.map_cons, List.sum_cons, hoff] at hsum
    rw [length_beFields, hsum]
    omega
  rw [image, header, List.append_assoc, ← beAt_of_isPrefix (List.prefix_append _ _) hin, hfield]

/-- What the decoders read of the header. -/
theorem plain_header : PlainHeader d.image ∧ beAt d.image 4 4 = 2 ∧
    beAt d.image 20 4 = d.clusterBits ∧ beAt d.image 24 8 = d.bytes.length ∧
    beAt d.image 36 4 = d.l2Tables ∧ beAt d.image 40 8 = d.clusterSize ∧
    beAt d.image 48 8 = d.tableStart * d.clusterSize ∧ beAt d.image 56 4 = d.tableClusters ∧
    beAt d.image 60 4 = 0 := by
  have hrange := d.clusterBits_range
  have hsize := d.clusterSize_bounds
  have hlen := d.length_le.2
  have hl2 := d.l2Tables_capped
  have hentries := d.tableEntries_capped
  have htable : d.tableClusters ≤ d.tableClusters * d.slots := Nat.le_mul_of_pos_right _ d.slots_pos
  have hblocks : 0 < d.blocks := Nat.succ_pos _
  have hstart := d.offset_le (k := d.tableStart) (by rw [clusters, blockStart]; omega)
  have hversion : beAt d.image 4 4 = 2 := d.beAt_field (k := 1) rfl rfl (by norm_num)
  have hbits : beAt d.image 20 4 = d.clusterBits := d.beAt_field (k := 4) rfl rfl (by omega)
  refine ⟨⟨by omega, d.beAt_field (k := 0) rfl rfl (by decide), .inl hversion,
    d.beAt_field (k := 2) rfl rfl (by norm_num), by omega,
    d.beAt_field (k := 6) rfl rfl (by norm_num)⟩, hversion, hbits,
    d.beAt_field (k := 5) rfl rfl (by omega), d.beAt_field (k := 7) rfl rfl (by omega),
    d.beAt_field (k := 8) rfl rfl (by omega), d.beAt_field (k := 9) rfl rfl (by omega),
    d.beAt_field (k := 10) rfl rfl (by omega), d.beAt_field (k := 11) rfl rfl (by norm_num)⟩

end Parts

section Guest

variable (d : PlainDisk) {i : Nat}

theorem cluster_lt (hi : i < d.bytes.length) :
    i / d.clusterSize < d.dataClusters ∧ i / d.clusterSize / d.slots < d.l2Tables := by
  have hdata : i / d.clusterSize < d.dataClusters :=
    Nat.div_lt_of_lt_mul (by rw [Nat.mul_comm]; exact hi.trans_le d.length_le_data)
  exact ⟨hdata, Nat.div_lt_of_lt_mul (by rw [Nat.mul_comm]; exact hdata.trans_le d.dataClusters_le)⟩

/-- Table entries carry the flag of a refcount of one over a plain offset. -/
theorem entry_fields {x : Nat} (hx : x < 2 ^ 62) (heven : x % 2 = 0) :
    (2 ^ 63 + x).testBit 62 = false ∧ (2 ^ 63 + x).testBit 0 = false ∧ (2 ^ 63 + x) % 2 ^ 62 = x ∧
      (2 ^ 63 + x) % 2 ^ 63 = x := by
  refine ⟨?_, ?_, by omega, by omega⟩
  · rw [Nat.testBit_eq_decide_div_mod_eq]
    exact decide_eq_false (by omega)
  · rw [Nat.testBit_eq_decide_div_mod_eq]
    exact decide_eq_false (by omega)

theorem offset_even (k : Nat) : k * d.clusterSize % 2 = 0 := by
  rw [← d.perBlock_mul, ← Nat.mul_assoc, Nat.mul_mod_left]

/-- The L2 entry of cluster `k`, in the table its L1 entry names. -/
theorem entry_offset (k : Nat) :
    (d.l2Start + k / d.slots) * d.clusterSize + k % d.slots * 8 =
      d.l2Start * d.clusterSize + k * 8 := by
  calc (d.l2Start + k / d.slots) * d.clusterSize + k % d.slots * 8
      = d.l2Start * d.clusterSize + (d.slots * (k / d.slots) + k % d.slots) * 8 := by
        rw [← d.slots_mul]
        ring
    _ = d.l2Start * d.clusterSize + k * 8 := by rw [Nat.div_add_mod]

theorem guestByte_image (inflate : Inflate) (hi : i < d.bytes.length) :
    guestByte inflate d.image i = d.bytes[i]? := by
  obtain ⟨-, -, hbits, -, hl1Size, hl1Off, -⟩ := d.plain_header
  obtain ⟨hdata, htable⟩ := d.cluster_lt hi
  have hsize := d.clusterSize_bounds
  have hslots := d.slots_mul
  obtain ⟨k, hk⟩ : ∃ k, k = i / d.clusterSize := ⟨_, rfl⟩
  rw [← hk] at hdata htable
  have htable_off := d.offset_le (k := d.l2Start + k / d.slots)
    (by rw [clusters, blockStart, tableStart, dataStart]; omega)
  have hdata_off := d.offset_le (k := d.dataStart + k)
    (by rw [clusters, blockStart, tableStart]; omega)
  obtain ⟨-, -, -, hl1⟩ := entry_fields (x := (d.l2Start + k / d.slots) * d.clusterSize) (by omega)
    (d.offset_even _)
  obtain ⟨hplain, hflag, hl2, -⟩ := entry_fields (x := (d.dataStart + k) * d.clusterSize) (by omega)
    (d.offset_even _)
  have hpos : ∀ n m, 0 < n → (n + m) * d.clusterSize ≠ 0 := fun n m hn =>
    Nat.mul_ne_zero (by omega) (by omega)
  have hword : d.l2Word k = 2 ^ 63 + (d.dataStart + k) * d.clusterSize := if_pos hdata
  have hentry := d.beAt_l2 (hdata.trans_le d.dataClusters_le)
  have hmod := Nat.mod_lt k d.slots_pos
  have hbyte : (d.dataStart + k) * d.clusterSize + i % d.clusterSize =
      d.dataStart * d.clusterSize + i := by
    rw [Nat.add_mul, Nat.add_assoc, hk, Nat.mul_comm (i / d.clusterSize), Nat.div_add_mod]
  unfold guestByte
  simp only [hbits, hl1Size, hl1Off]
  rw [← clusterSize, show d.clusterSize / 8 = d.slots by omega, ← hk, if_pos htable, d.beAt_l1 htable,
    hl1, if_neg (hpos _ _ (by rw [l2Start]; omega)), if_neg (by omega), d.entry_offset, hentry, hword,
    hplain, hflag, hl2]
  rw [if_neg (by decide), if_neg (by simpa using hpos _ _ (by rw [dataStart, l2Start]; omega)), hbyte,
    d.getElem?_data hi]

end Guest

section Refcounts

variable (d : PlainDisk)

def onDisk : Content := ⟨d.image, by
  have hle := d.clusters_mul_le
  rw [length_image]
  omega⟩

theorem offset_aligned (k : Nat) : k * d.clusterSize / 2 ^ 9 * 2 ^ 9 = k * d.clusterSize := by
  have hrange := d.clusterBits_range
  have hdvd : 2 ^ 9 ∣ d.clusterSize := Nat.pow_dvd_pow 2 hrange.1
  exact Nat.div_mul_cancel (Dvd.dvd.mul_left hdvd k)

theorem entryOffset_flagged {k : Nat} (hk : k * d.clusterSize < 2 ^ 56) :
    entryOffset (2 ^ 63 + k * d.clusterSize) = k * d.clusterSize := by
  have hmod : (2 ^ 63 + k * d.clusterSize) % 2 ^ 56 = k * d.clusterSize := by omega
  rw [entryOffset, hmod, offset_aligned]

/-- What the report reads behind its header. -/
theorem report_header {h : RefcountHeader} (hp : RefcountHeader.parse (slice d.image 0 104) = .ok h) :
    h.refcountOrder = 4 ∧ h.clusterSize = d.clusterSize ∧
      h.refcountTableOffset = d.tableStart * d.clusterSize ∧
      h.rtEntries = d.tableClusters * d.slots ∧ h.l1TableOffset = d.clusterSize ∧
      h.l1Entries = d.l2Tables := by
  obtain ⟨hplain, hversion, hbits, -, hl1Size, hl1Off, htableOff, htableClusters, -⟩ := d.plain_header
  obtain ⟨hlen, -, h20, h36, h40, h48, h56⟩ := RefcountHeader.parse_ok hp
  have hcapped := d.l2Tables_capped
  have hentries := d.tableEntries_capped
  have hmax : maxL1Entries = 2 ^ 20 := rfl
  have hcs : h.clusterSize = d.clusterSize := by
    rw [RefcountHeader.clusterSize, Nat.one_shiftLeft, h20, hbits, clusterSize]
  have htable : d.tableClusters * d.clusterSize / 8 = d.tableClusters * d.slots := by
    rw [← d.slots_mul, ← Nat.mul_assoc, Nat.mul_div_cancel _ (by omega)]
  refine ⟨RefcountHeader.refcountOrder_of_version hp hversion, hcs, h48.trans htableOff, ?_,
    h40.trans hl1Off, ?_⟩
  · rw [RefcountHeader.rtEntries, h56, htableClusters, hcs, htable, asUsize_of_lt (by omega)]
    omega
  · rw [RefcountHeader.l1Entries, h36, hl1Size]
    omega

theorem refcountTable_eq : tableIn (Medium.file d.onDisk) (d.tableStart * d.clusterSize)
    (d.tableClusters * d.slots) = .ok ((List.range (d.tableClusters * d.slots)).map fun i =>
      beAt d.image (d.tableStart * d.clusterSize + i * 8) 8) := by
  have hsize := d.clusterSize_bounds
  refine tableIn_of_le (Nat.mul_ne_zero ?_ (by omega)) ?_
  · rw [tableStart, dataStart, l2Start]
    omega
  · rw [Medium.file_bytes, show d.onDisk.1 = d.image from rfl, length_image, Nat.mul_assoc,
      d.slots_mul, ← Nat.add_mul]
    refine Nat.mul_le_mul_right _ ?_
    rw [clusters, blockStart]
    omega

/-- The walk over the tables meets the data clusters only. -/
theorem data_of_candidate {o : Nat} (ho : o ∈ candidates (Medium.file d.onDisk) d.clusterSize
    ((tableIn (Medium.file d.onDisk) d.clusterSize d.l2Tables).toOption.getD [])) :
    ∃ k, k < d.dataClusters ∧ o = (d.dataStart + k) * d.clusterSize := by
  have hsize := d.clusterSize_bounds
  have hslots := d.slots_mul
  have hbytes : (Medium.file d.onDisk).bytes = d.image := rfl
  rw [tableIn_of_le (by omega) d.l1_inside] at ho
  simp only [candidates, Except.toOption, Option.getD_some, List.mem_flatMap, List.mem_map,
    List.mem_range] at ho
  obtain ⟨w, ⟨t, ht, rfl⟩, ho⟩ := ho
  have hoff := d.offset_le (k := d.l2Start + t)
    (by rw [clusters, blockStart, tableStart, dataStart]; omega)
  rw [hbytes, d.beAt_l1 ht, d.entryOffset_flagged (by omega)] at ho
  split_ifs at ho with hzero
  · cases ho
  · rw [show d.clusterSize / 8 = d.slots by omega,
      tableIn_of_le hzero (by rw [hbytes]; omega)] at ho
    simp only [Option.getD_some, List.mem_filterMap, List.mem_map, List.mem_range] at ho
    obtain ⟨e, ⟨j, hj, rfl⟩, he⟩ := ho
    have hlt : t * d.slots + j < d.l2Tables * d.slots := by
      calc t * d.slots + j < t * d.slots + d.slots := Nat.add_lt_add_left hj _
        _ = (t + 1) * d.slots := (Nat.succ_mul _ _).symm
        _ ≤ d.l2Tables * d.slots := Nat.mul_le_mul_right _ ht
    have hentry : (d.l2Start + t) * d.clusterSize + j * 8 =
        d.l2Start * d.clusterSize + (t * d.slots + j) * 8 := by
      rw [← hslots]
      ring
    rw [hbytes, hentry, d.beAt_l2 hlt, l2Word] at he
    split_ifs at he with hdata
    · have hdata_off := d.offset_le (k := d.dataStart + (t * d.slots + j))
        (by rw [clusters, blockStart, tableStart]; omega)
      unfold hostOf at he
      split_ifs at he
      rw [d.entryOffset_flagged (by omega)] at he
      exact ⟨_, hdata, (Option.some.inj he).symm⟩
    · cases he

theorem refcount_of_cluster {k : Nat} (hk : k < d.clusters) :
    refcountIn (Medium.file d.onDisk) ((List.range (d.tableClusters * d.slots)).map fun i =>
      beAt d.image (d.tableStart * d.clusterSize + i * 8) 8) 4 d.clusterSize k = some 1 := by
  have hsize := d.clusterSize_bounds
  have hrange := d.clusterBits_range
  have hper := d.perBlock_mul
  have hfields : refcountsPerBlock 4 d.clusterSize = d.perBlock := by
    rw [refcountsPerBlock]
    omega
  have hblock : k / d.perBlock < d.blocks :=
    Nat.div_lt_of_lt_mul (by rw [Nat.mul_comm]; exact hk.trans_le d.clusters_le)
  have hoff := d.offset_le (k := d.blockStart + k / d.perBlock) (by rw [clusters]; omega)
  have hentry : ((List.range (d.tableClusters * d.slots)).map fun i =>
      beAt d.image (d.tableStart * d.clusterSize + i * 8) 8)[k / refcountsPerBlock 4 d.clusterSize]? =
      some ((d.blockStart + k / d.perBlock) * d.clusterSize) := by
    rw [hfields, List.getElem?_map, List.getElem?_range (hblock.trans_le d.blocks_le),
      Option.map_some, d.beAt_table hblock]
  have hblockOf : blockOf d.clusterSize ((d.blockStart + k / d.perBlock) * d.clusterSize) =
      (d.blockStart + k / d.perBlock) * d.clusterSize := by
    rw [clusterSize, blockOf_eq (by omega), ← clusterSize, Nat.mod_eq_of_lt (by omega),
      Nat.mul_div_cancel _ (by omega)]
  have hpos : 0 < d.blockStart := by
    rw [blockStart, tableStart, dataStart, l2Start]
    omega
  have hne : (d.blockStart + k / d.perBlock) * d.clusterSize ≠ 0 :=
    Nat.mul_ne_zero (Nat.add_pos_left hpos _).ne' (by omega)
  rw [refcountIn_of_entry (by omega) hentry (by rw [hblockOf]; exact hne)
      (by rw [hblockOf, Medium.file_bytes]; exact hoff.1),
    if_pos (by omega), storedRefcount, if_pos (by omega), hblockOf, fieldBit, hfields]
  have hfield : (d.blockStart + k / d.perBlock) * d.clusterSize + k % d.perBlock * 2 ^ 4 / 8 =
      d.blockStart * d.clusterSize + k * 2 := by
    calc (d.blockStart + k / d.perBlock) * d.clusterSize + k % d.perBlock * 2 ^ 4 / 8
        = (d.blockStart + k / d.perBlock) * d.clusterSize + k % d.perBlock * 2 := by omega
      _ = d.blockStart * d.clusterSize + (d.perBlock * (k / d.perBlock) + k % d.perBlock) * 2 := by
        rw [← hper]
        ring
      _ = d.blockStart * d.clusterSize + k * 2 := by rw [Nat.div_add_mod]
  rw [hfield]
  exact congrArg some (d.beAt_refcounts hk)

/-- No cluster that the walk looks up has a refcount of zero. -/
theorem none_unreferenced : NoneUnreferenced d.onDisk := by
  intro h refcountTable hp _ htable o ho
  obtain ⟨horder, hcs, htableOff, hentries, hl1Off, hl1Size⟩ := d.report_header hp
  rw [htableOff, hentries, d.refcountTable_eq] at htable
  obtain rfl := Except.ok.inj htable
  rw [hcs, hl1Off, hl1Size] at ho
  obtain ⟨k, hk, rfl⟩ := d.data_of_candidate (List.mem_of_mem_take ho)
  have hsize := d.clusterSize_bounds
  have hcluster : d.dataStart + k < d.clusters := by
    rw [clusters, blockStart, tableStart]
    omega
  rw [horder, hcs, Nat.mul_div_cancel _ (by omega), d.refcount_of_cluster hcluster]
  decide

theorem auditPath_onDisk : auditPath (File.opened d.onDisk) = .ok [] := by
  obtain ⟨hplain, hversion, hbits, -, -, -, -, -, hcount⟩ := d.plain_header
  obtain ⟨h, hp⟩ := (RefcountHeader.parse_isOk_iff hplain.long hplain.magic_eq).mpr
    ⟨by omega, hplain.clusterBits⟩
  obtain ⟨-, -, htableOff, hentries, -⟩ := d.report_header hp
  have hin : ¬ RtOutside d.onDisk h := by
    intro hout
    obtain ⟨e, he⟩ := (tableIn_error_iff (M := Medium.file d.onDisk)).mpr hout
    rw [htableOff, hentries, d.refcountTable_eq] at he
    cases he
  obtain ⟨report, hr⟩ := refcountReport_ok (c := d.onDisk) hp (.inr hin)
  rcases (no_orphans_iff d.onDisk).mpr d.none_unreferenced with ⟨e, he⟩ | ⟨report', hr', hzero⟩
  · rw [hr] at he
    cases he
  · rw [auditPath_of_plain (c := d.onDisk) hplain hversion hcount hr', auditOrphans, if_pos hzero]
    rfl

end Refcounts

end PlainDisk

/-- Every disk within the caps, cut into clusters of any size, has an image that opens, is read
back as that disk through any history of calls on the reader or on the source, and is audited
without a finding. -/
theorem plain_disk_round_trip {κ : Type} (inflate : Inflate) (d : PlainDisk) :
    ∃ r₀, fromBacking (Cursor.mk d.image 0) = .ok r₀ ∧ r₀.virtualDiskSize = d.bytes.length ∧
      (∀ cs : List Call, (Qcow2Reader.call inflate).Admits Qcow2Reader.SeekFits cs r₀ →
        ∃ p, Runs (FlatStep (d.bytes[·]?) d.bytes.length) 0 cs
          ((Qcow2Reader.call inflate).run cs r₀).1 p) ∧
      (∀ (cs : List (ReadAtCall κ)) (c : ReadAtCall κ),
        (Qcow2Source.serve inflate c ((Qcow2Source.serve inflate).run cs (.new r₀)).2).1 =
          .ok (min c.buf.length (d.bytes.length - c.offset),
            overwrite c.buf 0 (slice d.bytes c.offset c.buf.length))) ∧
      auditPath (File.opened d.onDisk) = .ok [] := by
  obtain ⟨hplain, hversion, -, hsize, hl1Size, hl1Off, -⟩ := d.plain_header
  have hcapped := d.l2Tables_capped
  have hinside := d.l1_inside
  have hlen := d.length_le.2
  obtain ⟨r₀, h, hdisk⟩ := opened_of_plain hplain hversion (by omega) (by omega)
  rw [hsize] at hdisk
  have hbyte : ∀ i, i < r₀.virtualDiskSize → guestByte inflate d.image i = d.bytes[i]? := by
    intro i hi
    exact d.guestByte_image inflate (by omega)
  refine ⟨r₀, h, hdisk, ?_, ?_, d.auditPath_onDisk⟩
  · intro cs hcs
    have hrun := history_reads_back h hbyte hcs
    rwa [hdisk] at hrun
  · intro cs c
    obtain ⟨out, hout, houtLen, hbytes⟩ := read_at_reads_back h (by omega) hbyte
      (fun i hi => by rw [List.getElem?_eq_getElem (by omega)]; exact Option.some_ne_none _) cs c
    rw [hdisk] at hout hbytes
    have hcount : min c.buf.length (d.bytes.length - min c.offset d.bytes.length) =
        min c.buf.length (d.bytes.length - c.offset) := by omega
    have hslice := length_slice d.bytes c.offset c.buf.length
    have heq : out = overwrite c.buf 0 (slice d.bytes c.offset c.buf.length) := by
      apply List.ext_getElem?
      intro k
      rw [hbytes k, getElem?_overwrite (Nat.zero_le _), hcount, hslice]
      by_cases hk : k < min c.buf.length (d.bytes.length - c.offset)
      · rw [if_pos hk, if_pos (by omega), Nat.sub_zero, getElem?_slice (by omega)]
      · rw [if_neg hk, if_neg (by omega)]
    rw [hout, hcount, heq]

end Qcow2
