import Qcow2.RefcountRefines

/-! The refcount that the format stores for a cluster, and where the lookup returns it. -/

namespace Qcow2

open StdIo

def refcountsPerBlock (order clusterSize : Nat) : Nat := clusterSize * 8 / 2 ^ order

def blockOf (clusterSize entry : Nat) : Nat := entry &&& (2 ^ 64 - 1 - (clusterSize - 1))

/-- The bit at which the field of a cluster starts in its block. -/
def fieldBit (order clusterSize clusterIdx : Nat) : Nat :=
  clusterIdx % refcountsPerBlock order clusterSize * 2 ^ order

/-- Whole bytes are big-endian; in a byte the lower index has the less significant bits. -/
def storedRefcount (bytes : List UInt8) (block order clusterSize clusterIdx : Nat) : Nat :=
  let bit := fieldBit order clusterSize clusterIdx
  if 3 ≤ order then beAt bytes (block + bit / 8) (2 ^ order / 8)
  else beAt bytes (block + bit / 8) 1 / 2 ^ (bit % 8) % 2 ^ 2 ^ order

/-- The byte of a narrow field holds the same value at the field's mirror image. -/
def Mirrored (bytes : List UInt8) (block order clusterSize clusterIdx : Nat) : Prop :=
  let bit := fieldBit order clusterSize clusterIdx
  let byte := beAt bytes (block + bit / 8) 1
  byte / 2 ^ (8 - bit % 8 - 2 ^ order) % 2 ^ 2 ^ order = byte / 2 ^ (bit % 8) % 2 ^ 2 ^ order

section Lookup

variable {M : Medium} {refcountTable : List Nat} {order clusterSize clusterIdx entry : Nat}

theorem field_in_block (hper : 0 < refcountsPerBlock order clusterSize) :
    fieldBit order clusterSize clusterIdx + 2 ^ order ≤ clusterSize * 8 := by
  have hlt : clusterIdx % refcountsPerBlock order clusterSize + 1 ≤
      refcountsPerBlock order clusterSize := Nat.mod_lt _ hper
  calc fieldBit order clusterSize clusterIdx + 2 ^ order
      = (clusterIdx % refcountsPerBlock order clusterSize + 1) * 2 ^ order := by
        rw [fieldBit, Nat.add_mul, Nat.one_mul]
    _ ≤ refcountsPerBlock order clusterSize * 2 ^ order := Nat.mul_le_mul_right _ hlt
    _ ≤ clusterSize * 8 := Nat.div_mul_le_self _ _

theorem refcountIn_of_entry (hper : 0 < refcountsPerBlock order clusterSize)
    (hentry : refcountTable[clusterIdx / refcountsPerBlock order clusterSize]? = some entry)
    (hblock : blockOf clusterSize entry ≠ 0)
    (hin : blockOf clusterSize entry + clusterSize ≤ M.bytes.length) :
    refcountIn M refcountTable order clusterSize clusterIdx =
      some (if 3 ≤ order then storedRefcount M.bytes (blockOf clusterSize entry) order clusterSize
          clusterIdx
        else beAt M.bytes (blockOf clusterSize entry + fieldBit order clusterSize clusterIdx / 8) 1 /
          2 ^ (8 - fieldBit order clusterSize clusterIdx % 8 - 2 ^ order) % 2 ^ 2 ^ order) := by
  have hfield : fieldBit order clusterSize clusterIdx + 2 ^ order ≤ clusterSize * 8 :=
    field_in_block hper
  obtain ⟨bit, hbit⟩ : ∃ bit, bit = fieldBit order clusterSize clusterIdx := ⟨_, rfl⟩
  have hread : ∀ n, 0 < n → bit / 8 + n ≤ clusterSize →
      (M.readExactAt (blockOf clusterSize entry + bit / 8) n).toOption =
        some (slice M.bytes (blockOf clusterSize entry + bit / 8) n) := by
    intro n hn hle
    rw [M.readExactAt_toOption _ hn, if_neg (by omega)]
  unfold refcountIn
  rw [refcountsPerBlock] at hper hentry
  rw [blockOf] at hblock
  simp only [if_neg hper.ne', hentry, Option.bind_some, if_neg hblock]
  rw [← refcountsPerBlock, ← fieldBit, ← blockOf, ← hbit]
  rw [← hbit] at hfield
  by_cases hwide : 3 ≤ order
  · have hdvd : 2 ^ 3 ∣ 2 ^ order := Nat.pow_dvd_pow 2 hwide
    have hone := Nat.one_le_two_pow (n := order)
    have hpos : 0 < 2 ^ order / 8 := by omega
    rw [if_pos hwide, if_pos hwide, hread _ hpos (by omega), storedRefcount, if_pos hwide, ← hbit]
    rfl
  · have hone := Nat.one_le_two_pow (n := order)
    rw [if_neg hwide, if_neg hwide, hread 1 Nat.one_pos (by omega)]
    rfl

end Lookup

/-- Fields narrower than a byte are read from its other end, so they come out as stored
exactly where the byte cannot tell. -/
theorem refcount_as_stored_iff {c : Content} {f : File} (hf : Serves.Standing (File.On c) f)
    {refcountTable : List Nat} {order clusterSize clusterIdx entry : Nat} (horder : order ≤ 6)
    (hidx : clusterIdx < 2 ^ 64) (hper : 0 < refcountsPerBlock order clusterSize)
    (hentry : refcountTable[clusterIdx / refcountsPerBlock order clusterSize]? = some entry)
    (hblock : blockOf clusterSize entry ≠ 0)
    (hin : blockOf clusterSize entry + clusterSize ≤ c.1.length) :
    outcome ((refcountOf refcountTable clusterIdx (1 <<< order) clusterSize).run f) =
        .ok (some (storedRefcount c.1 (blockOf clusterSize entry) order clusterSize clusterIdx)) ↔
      3 ≤ order ∨ Mirrored c.1 (blockOf clusterSize entry) order clusterSize clusterIdx := by
  rw [(refcountOf_computes (serves_file c) refcountTable horder clusterSize hidx).outcome_eq hf,
    refcountIn_of_entry (M := Medium.file c) hper hentry hblock hin, Except.ok.injEq,
    Option.some.injEq, Medium.file_bytes]
  by_cases hwide : 3 ≤ order
  · simp [hwide]
  · rw [if_neg hwide, storedRefcount, if_neg hwide, or_iff_right hwide, Mirrored]

/-- An allocated cluster whose four-bit refcount, the low half of a byte, is 1. -/
def nibbleImage : Content :=
  ⟨headerBytes 3 9 512 1 104 112 1 ++ headerTail 0 2 ++ beBytes 8 1536 ++ beBytes 8 1024 ++
    List.replicate 906 0 ++ [0x01] ++ List.replicate 509 0 ++ beBytes 8 2048 ++
    List.replicate 1016 0, by
      simp only [List.length_append, length_headerBytes, length_headerTail, length_beBytes,
        List.length_replicate, List.length_singleton]
      norm_num⟩

theorem refcount_as_stored_iff_sample :
    outcome ((refcountOf [1024] 5 (1 <<< 2) 512).run (File.opened nibbleImage)) =
        .ok (some (storedRefcount nibbleImage.1 (blockOf 512 1024) 2 512 5)) ↔
      3 ≤ 2 ∨ Mirrored nibbleImage.1 (blockOf 512 1024) 2 512 5 :=
  refcount_as_stored_iff ⟨0, File.on_opened nibbleImage⟩ (by decide) (by decide) (by decide) rfl
    (by decide) (by decide +kernel)

theorem referenced_cluster_accused :
    storedRefcount nibbleImage.1 (blockOf 512 1024) 2 512 4 = 1 ∧
      outcome ((refcountOf [1024] 4 (1 <<< 2) 512).run (File.opened nibbleImage)) = .ok (some 0) ∧
      (refcountReport (File.opened nibbleImage)).toOption.map
        (fun report => (report.allocatedClusters, report.orphanClusters)) = some (1, 1) := by
  refine ⟨by decide +kernel, by decide +kernel, by decide +kernel⟩

end Qcow2
