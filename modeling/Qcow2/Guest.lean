import Qcow2.Reader
import Qcow2.StdIo.FlatDisk

/-! The guest disk an image denotes, by plain division on guest offsets, and the
reader's cluster lookup as a computation of it. -/

namespace Qcow2

open StdIo

/-- What the lookup of a guest offset depends on: `l1 k` is the `k`-th L1 entry,
`none` past the end of the table. -/
structure GuestMap where
  clusterBits : Nat
  size : Nat
  l1 : Nat → Option Nat

namespace GuestMap

variable (g : GuestMap) (M : Medium) (inflate : Inflate)

def clusterSize : Nat := 2 ^ g.clusterBits

def slots : Nat := g.clusterSize / 8

def entryRef (e : Nat) : ClusterRef :=
  if e.testBit 62 then
    .compressed (e % 2 ^ (63 - g.clusterBits))
      ((e / 2 ^ (63 - g.clusterBits) % 2 ^ (g.clusterBits - 1) + 1) * 512)
  else if e % 2 = 1 then .zeroCluster
  else if e % 2 ^ 62 = 0 then .unallocated
  else .normal (e % 2 ^ 62)

/-- The L1 entry over guest offset `i`, 0 when there is none, without bit 63. -/
def l2Table (i : Nat) : Nat := (g.l1 (i / g.clusterSize / g.slots)).getD 0 % 2 ^ 63

def cluster (i : Nat) : Except IoError ClusterRef :=
  if g.l2Table i = 0 then .ok .unallocated
  else (M.readExactAt (g.l2Table i + i / g.clusterSize % g.slots * 8) 8).map
    fun bs => g.entryRef (beNat bs)

/-- The byte at offset `j` of a cluster; `ok none` when its host byte is past the
end of the image. -/
def fetchIn (c : ClusterRef) (j : Nat) : Except IoError (Option UInt8) :=
  match c with
  | .normal o => .ok M.bytes[o + j]?
  | .compressed off n =>
    ((inflate (slice M.bytes off n)).mapError Qcow2Reader.deflateError).map
      fun out => some (out.getD j 0)
  | .zeroCluster => .ok (some 0)
  | .unallocated => .ok (some 0)

def disk : FlatDisk IoError UInt8 where
  size := g.size
  fetch i := g.cluster M i >>= fun c => fetchIn M inflate c (i % g.clusterSize)

theorem fetchIn_entryRef (e j : Nat) : (fetchIn M inflate (g.entryRef e) j).toOption.join =
    if e.testBit 62 then
      (inflate (slice M.bytes (e % 2 ^ (63 - g.clusterBits))
        ((e / 2 ^ (63 - g.clusterBits) % 2 ^ (g.clusterBits - 1) + 1) * 512))).toOption.map
          fun out => out.getD j 0
    else if e.testBit 0 ∨ e % 2 ^ 62 = 0 then some 0
    else M.bytes[e % 2 ^ 62 + j]? := by
  unfold entryRef
  by_cases hc : e.testBit 62 = true
  · rw [if_pos hc, if_pos hc]
    simp only [fetchIn]
    cases inflate (slice M.bytes (e % 2 ^ (63 - g.clusterBits))
      ((e / 2 ^ (63 - g.clusterBits) % 2 ^ (g.clusterBits - 1) + 1) * 512)) <;> rfl
  · rw [if_neg hc, if_neg hc]
    have hbit : e.testBit 0 = true ↔ e % 2 = 1 := by simp [Nat.testBit_zero]
    by_cases hz : e % 2 = 1
    · rw [if_pos hz, if_pos (.inl (hbit.mpr hz))]
      rfl
    · by_cases ho : e % 2 ^ 62 = 0
      · rw [if_neg hz, if_pos ho, if_pos (.inr ho)]
        rfl
      · rw [if_neg hz, if_neg ho, if_neg (by simp only [hbit, hz, ho, or_self, not_false_eq_true])]
        rfl

theorem disk_get? (i : Nat) : (g.disk M inflate).get? i =
    if g.l2Table i = 0 then some 0
    else if M.bytes.length < g.l2Table i + i / g.clusterSize % g.slots * 8 + 8 then none
    else (fetchIn M inflate (g.entryRef (beAt M.bytes (g.l2Table i + i / g.clusterSize % g.slots * 8) 8))
      (i % g.clusterSize)).toOption.join := by
  have hread : ∀ (x : Except IoError (List UInt8)) (f : List UInt8 → ClusterRef)
      (k : ClusterRef → Except IoError (Option UInt8)),
      (x.map f >>= k).toOption.join = x.toOption.bind fun bs => (k (f bs)).toOption.join := by
    intro x f k
    cases x <;> rfl
  simp only [FlatDisk.get?, disk, cluster]
  by_cases hz : g.l2Table i = 0
  · rw [if_pos hz, if_pos hz]
    rfl
  · rw [if_neg hz, if_neg hz, hread, M.readExactAt_toOption _ (by omega)]
    by_cases hin : M.bytes.length < g.l2Table i + i / g.clusterSize % g.slots * 8 + 8
    · rw [if_pos hin, if_pos hin, Option.bind_none]
    · rw [if_neg hin, if_neg hin, Option.bind_some, beAt]

def clusterDisk (c : ClusterRef) : FlatDisk IoError UInt8 := ⟨g.clusterSize, fetchIn M inflate c⟩

def ofImage (image : List UInt8) : GuestMap where
  clusterBits := beAt image 20 4
  size := beAt image 24 8
  l1 k := if k < beAt image 36 4 then some (beAt image (beAt image 40 8 + k * 8) 8) else none

end GuestMap

def Layout.guestMap (L : Layout) : GuestMap := ⟨L.clusterBits, L.virtualDiskSize, (L.l1Table[·]?)⟩

namespace Layout

variable (L : Layout)

theorem clusterSize_pos : 0 < L.clusterSize := by
  rw [L.clusterSize_eq]
  positivity

theorem clusterSize_le : L.clusterSize ≤ 2 ^ 20 := by
  rw [L.clusterSize_eq]
  exact Nat.pow_le_pow_right (by omega) L.clusterBits_range.2

theorem guestMap_clusterSize : L.guestMap.clusterSize = L.clusterSize := L.clusterSize_eq.symm

theorem guestMap_slots : L.guestMap.slots = 2 ^ (L.clusterBits - 3) :=
  two_pow_sub_three L.clusterBits_range.1

theorem slots_pos : 0 < L.guestMap.slots := by
  rw [L.guestMap_slots]
  positivity

theorem trailingZeros_clusterSize : trailingZeros L.clusterSize = L.clusterBits := by
  have h := L.clusterBits_range
  rw [L.clusterSize_eq, trailingZeros_two_pow (by omega)]

theorem refOfEntry_eq (e : Nat) :
    Qcow2Reader.refOfEntry L.clusterSize e = L.guestMap.entryRef e := by
  have h := L.clusterBits_range
  have hsplit : e &&& (1 <<< (63 - L.clusterBits) - 1) = e % 2 ^ (63 - L.clusterBits) := by
    rw [Nat.one_shiftLeft, land_low]
  have hcount : e >>> (63 - L.clusterBits) &&& (1 <<< (L.clusterBits - 1) - 1) =
      e / 2 ^ (63 - L.clusterBits) % 2 ^ (L.clusterBits - 1) := by
    rw [Nat.one_shiftLeft, land_low, shiftRight_two_pow]
  have hlt : e / 2 ^ (63 - L.clusterBits) % 2 ^ (L.clusterBits - 1) < 2 ^ 20 :=
    (Nat.mod_lt _ (by positivity)).trans_le (Nat.pow_le_pow_right (by omega) (by omega))
  have hoff : e &&& 0x3FFFFFFFFFFFFFFF = e % 2 ^ 62 := land_low e 62
  have husize : asUsize ((e / 2 ^ (63 - L.clusterBits) % 2 ^ (L.clusterBits - 1) + 1) * 512) =
      (e / 2 ^ (63 - L.clusterBits) % 2 ^ (L.clusterBits - 1) + 1) * 512 :=
    asUsize_of_lt (by omega)
  simp only [Qcow2Reader.refOfEntry, GuestMap.entryRef, land_bit_ne_zero, land_one_ne_zero,
    L.trailingZeros_clusterSize, hsplit, hcount, husize, hoff]
  rfl

end Layout

namespace Qcow2Reader

variable {β : Type} [ReadSeek β] {M : Medium} {cursor : β → Nat → Prop}

def At (cursor : β → Nat → Prop) (L : Layout) (p : Nat) (r : Qcow2Reader β) : Prop :=
  r.toLayout = L ∧ r.pos = p ∧ Serves.Standing cursor r.backing

omit [ReadSeek β] in
theorem onBacking_computes {α : Type} {L : Layout} {p : Nat} {x : EStateM IoError β α}
    {o : Except IoError α} (hx : Computes (Serves.Standing cursor) x o) :
    Computes (At cursor L p) (onBacking x) o :=
  hx.zoom (fun _ hr => hr.2.2) (fun _ _ hr ht => ⟨hr.1, hr.2.1, ht⟩)

/-- The shifts and masks of the lookup are the divisions of the guest map, from
whatever state the reader is in. -/
theorem clusterRefFor_computes (S : Serves M cursor) (L : Layout) (p : Nat) {v : Nat}
    (hv : v < 2 ^ 64) :
    Computes (At cursor L p) (clusterRefFor v) (L.guestMap.cluster M v) := by
  intro r hr
  rcases hr with ⟨rfl, rfl, hst⟩
  have hbits := r.clusterBits_range
  have hidx : v >>> trailingZeros r.clusterSize = v / r.guestMap.clusterSize := by
    rw [r.trailingZeros_clusterSize, shiftRight_two_pow]
    rfl
  have hl1 : asUsize ((v / r.guestMap.clusterSize) >>> r.l2Bits) =
      v / r.guestMap.clusterSize / r.guestMap.slots := by
    rw [r.l2Bits_eq, shiftRight_two_pow, r.guestMap_slots]
    exact asUsize_of_lt (((Nat.div_le_self _ _).trans (Nat.div_le_self _ _)).trans_lt hv)
  have hl2 : v / r.guestMap.clusterSize &&& r.l2Mask =
      v / r.guestMap.clusterSize % r.guestMap.slots := by
    rw [r.l2Mask_eq, land_low, r.guestMap_slots]
  have htable : (r.l1Table[asUsize ((v / r.guestMap.clusterSize) >>> r.l2Bits)]?).getD 0 &&&
      0x7FFFFFFFFFFFFFFF = r.guestMap.l2Table v := by
    rw [hl1]
    exact land_low _ 63
  by_cases hz : r.guestMap.l2Table v = 0
  · refine ⟨r, ⟨rfl, rfl, hst⟩, ?_⟩
    simp [clusterRefFor, hidx, htable, hz, GuestMap.cluster]
  · have hread := onBacking_computes (L := r.toLayout) (p := r.pos) (S.readExactAt
      (r.guestMap.l2Table v + v / r.guestMap.clusterSize % r.guestMap.slots * 8) 8)
    obtain ⟨r', hr', hrun⟩ := hread r ⟨rfl, rfl, hst⟩
    refine ⟨r', hr', ?_⟩
    simp only [clusterRefFor, EStateM.run_bind, EStateM.run_get, hidx, htable, hl2, if_neg hz,
      hrun, GuestMap.cluster]
    cases M.readExactAt (r.guestMap.l2Table v +
        v / r.guestMap.clusterSize % r.guestMap.slots * 8) 8 with
    | error e => rfl
    | ok bs =>
      simp only [withState_ok, EStateM.run_pure, Except.map, r.refOfEntry_eq]

end Qcow2Reader

end Qcow2
