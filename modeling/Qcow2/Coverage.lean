import Qcow2.FlatRuns

/-! Which guest offsets the L1 table of an opened image covers, and the zeros read
at the others. -/

namespace Qcow2

open StdIo

theorem forall_div_lt_iff {v k n : Nat} (hk : 0 < k) : (∀ p, p < v → p / k < n) ↔ v ≤ n * k := by
  constructor
  · intro h
    by_contra hv
    have hn := h (n * k) (by omega)
    rw [Nat.mul_div_cancel _ hk] at hn
    omega
  · intro h p hp
    exact (Nat.div_lt_iff_lt_mul hk).mpr (by omega)

namespace Layout

def l1Idx (L : Layout) (p : Nat) : Nat := asUsize ((p >>> trailingZeros L.clusterSize) >>> L.l2Bits)

theorem l1Idx_eq (L : Layout) {p : Nat} (hp : p < 2 ^ 64) :
    L.l1Idx p = p / (L.guestMap.clusterSize * L.guestMap.slots) := by
  have hsize : L.guestMap.clusterSize = 2 ^ L.clusterBits := rfl
  rw [l1Idx, L.trailingZeros_clusterSize, L.l2Bits_eq, shiftRight_two_pow, shiftRight_two_pow,
    L.guestMap_slots, ← hsize, Nat.div_div_eq_div_mul]
  exact asUsize_of_lt ((Nat.div_le_self _ _).trans_lt hp)

theorem covered_iff {M : Medium} {L : Layout} (h : openedLayout M = .ok L) (k : Nat) :
    (∃ e, L.l1Table[k]? = some e) ↔ k < beAt M.bytes 36 4 := by
  have hl1 : L.l1Table[k]? = (GuestMap.ofImage M.bytes).l1 k :=
    congrFun (congrArg GuestMap.l1 (openedLayout_guestMap h)) k
  rw [hl1]
  simp only [GuestMap.ofImage]
  split <;> simp [*]

theorem all_covered_iff {M : Medium} {L : Layout} (h : openedLayout M = .ok L) :
    (∀ p, p < L.virtualDiskSize → ∃ e, L.l1Table[L.l1Idx p]? = some e) ↔
      L.virtualDiskSize ≤ beAt M.bytes 36 4 * L.guestMap.slots * L.guestMap.clusterSize := by
  have hk : 0 < L.guestMap.clusterSize * L.guestMap.slots := by
    rw [L.guestMap_clusterSize]
    exact Nat.mul_pos L.clusterSize_pos L.slots_pos
  have hlt := L.virtualDiskSize_lt
  have hidx : ∀ p, p < L.virtualDiskSize →
      ((∃ e, L.l1Table[L.l1Idx p]? = some e) ↔
        p / (L.guestMap.clusterSize * L.guestMap.slots) < beAt M.bytes 36 4) := by
    intro p hp
    rw [covered_iff h, L.l1Idx_eq (by omega)]
  rw [Nat.mul_assoc, Nat.mul_comm L.guestMap.slots, ← forall_div_lt_iff hk]
  constructor
  · intro hall p hp
    exact (hidx p hp).mp (hall p hp)
  · intro hall p hp
    exact (hidx p hp).mpr (hall p hp)

theorem uncovered_end {M : Medium} {L : Layout} (h : openedLayout M = .ok L)
    (hlt : beAt M.bytes 36 4 * L.guestMap.slots * L.guestMap.clusterSize < 2 ^ 64) :
    L.l1Table[L.l1Idx (beAt M.bytes 36 4 * L.guestMap.slots * L.guestMap.clusterSize)]? = none := by
  have hk : 0 < L.guestMap.clusterSize * L.guestMap.slots := by
    rw [L.guestMap_clusterSize]
    exact Nat.mul_pos L.clusterSize_pos L.slots_pos
  rw [L.l1Idx_eq hlt, Nat.mul_assoc, Nat.mul_comm L.guestMap.slots, Nat.mul_div_cancel _ hk]
  cases he : L.l1Table[beAt M.bytes 36 4]? with
  | none => rfl
  | some e =>
    have hcov := (covered_iff h (beAt M.bytes 36 4)).mp ⟨e, he⟩
    omega

end Layout

namespace Qcow2Reader

variable {β : Type} [ReadSeek β] {M : Medium} {cursor : β → Nat → Prop} {L : Layout}

theorem read_uncovered (inflate : Inflate) (S : Serves M cursor) {p : Nat} {r : Qcow2Reader β}
    (hr : At cursor L p r) (hp : p < L.virtualDiskSize) (hl1 : L.l1Table[L.l1Idx p]? = none)
    (b : UInt8) : (answer (read inflate [b]) r).1 = .ok (1, [0]) := by
  have hlt := L.virtualDiskSize_lt
  have htable : L.guestMap.l2Table p = 0 := by
    rw [L.l1Idx_eq (by omega), ← Nat.div_div_eq_div_mul] at hl1
    rw [GuestMap.l2Table]
    simp only [Layout.guestMap] at hl1 ⊢
    rw [hl1]
    rfl
  have hfetch : (L.guestMap.disk M inflate).fetch p = .ok (some 0) := by
    simp only [GuestMap.disk, GuestMap.cluster, if_pos htable]
    rfl
  obtain ⟨o, r', hrun, hreads, -⟩ := read_run inflate S hr [b]
  have ho := hreads.eq_singleton hp hfetch
  subst ho
  rw [answer_eq hrun]
  rfl

theorem call_seek_at (inflate : Inflate) {p q : Nat} {r : Qcow2Reader β} (hr : At cursor L p r)
    (hq : q < 2 ^ 63) : At cursor L q ((call inflate).run [.seek (.start q)] r).2 := by
  obtain ⟨r', hrun, hr'⟩ := seek_run hr (.start q)
  rw [seekOutcome_start hq] at hrun hr'
  simp only [Machine.run, call, answer_eq hrun, Prod.map, id]
  exact hr'

end Qcow2Reader

/-- The L1 table of an opened image covers its guest disk exactly when the header
fields agree; otherwise a seek behind its last entry reads a zero. -/
theorem l1_covers_disk_iff {β : Type} [ReadSeek β] {M : Medium} {cursor : β → Nat → Prop}
    (inflate : Inflate) (S : Serves M cursor) {b : β} (hb : cursor b 0) {r₀ : Qcow2Reader β}
    (h : fromBacking b = .ok r₀) :
    let size := beAt M.bytes 24 8
    let mapped := beAt M.bytes 36 4 * (2 ^ beAt M.bytes 20 4 / 8) * 2 ^ beAt M.bytes 20 4
    ((∀ p, p < r₀.virtualDiskSize → ∃ e, r₀.l1Table[r₀.l1Idx p]? = some e) ∧
        (∀ cs buf, let r := ((Qcow2Reader.call inflate).run cs r₀).2
          r.pos < r.virtualDiskSize → buf ≠ [] →
            (∃ x, (answer (Qcow2Reader.read inflate buf) r).1 = .ok x) →
              ∃ e, r.l1Table[r.l1Idx r.pos]? = some e) ↔ size ≤ mapped) ∧
      (mapped < size → ∃ cs, let r := ((Qcow2Reader.call inflate).run cs r₀).2
        r.pos < r.virtualDiskSize ∧ r.l1Table[r.l1Idx r.pos]? = none ∧
          ∀ c, (answer (Qcow2Reader.read inflate [c]) r).1 = .ok (1, [0])) := by
  intro size mapped
  obtain ⟨hl, hat⟩ := fromBacking_at S hb h
  have hmap := openedLayout_guestMap hl
  have hsize : r₀.virtualDiskSize = size := congrArg GuestMap.size hmap
  have hmapped : beAt M.bytes 36 4 * r₀.guestMap.slots * r₀.guestMap.clusterSize = mapped := by
    rw [hmap]
    rfl
  have hall := Layout.all_covered_iff hl
  rw [hmapped, hsize] at hall
  rw [hsize]
  constructor
  · constructor
    · intro hcov
      exact hall.mp hcov.1
    · intro hle
      have hcov := hall.mpr hle
      refine ⟨hcov, ?_⟩
      intro cs buf r hp _ _
      obtain ⟨q, hr⟩ := Qcow2Reader.call_run_at inflate S hat cs
      have hL : r.toLayout = r₀.toLayout := hr.1
      rw [hL, hsize] at hp
      rw [hL]
      exact hcov _ hp
  · intro hlt
    have hbound : mapped < 2 ^ 63 := by
      rw [← hmapped]
      exact openedLayout_mapped_lt hl
    have hnone : r₀.l1Table[r₀.l1Idx mapped]? = none := by
      rw [← hmapped]
      exact Layout.uncovered_end hl (by omega)
    have hr := Qcow2Reader.call_seek_at inflate hat hbound
    refine ⟨[.seek (.start mapped)], ?_⟩
    intro r
    have hL : r.toLayout = r₀.toLayout := hr.1
    have hp : r.pos = mapped := hr.2.1
    refine ⟨by rw [hL, hp, hsize]; exact hlt, by rw [hL, hp]; exact hnone, ?_⟩
    intro c
    exact Qcow2Reader.read_uncovered inflate S hr (by rw [hsize]; exact hlt) hnone c

theorem l1_covers_disk_iff_sample : ∃ r₀, fromBacking (Cursor.mk sampleImage 0) = .ok r₀ ∧
    ((∀ p, p < r₀.virtualDiskSize → ∃ e, r₀.l1Table[r₀.l1Idx p]? = some e) ∧
      (∀ cs buf, let r := ((Qcow2Reader.call .ok).run cs r₀).2
        r.pos < r.virtualDiskSize → buf ≠ [] →
          (∃ x, (answer (Qcow2Reader.read .ok buf) r).1 = .ok x) →
            ∃ e, r.l1Table[r.l1Idx r.pos]? = some e) ↔ 4 ≤ 1 * (2 ^ 9 / 8) * 2 ^ 9) := by
  obtain ⟨r₀, h⟩ := exists_ok (x := fromBacking (Cursor.mk sampleImage 0)) (by decide)
  have hfields : beAt sampleImage 24 8 = 4 ∧ beAt sampleImage 36 4 = 1 ∧
      beAt sampleImage 20 4 = 9 := by decide
  have hiff := (l1_covers_disk_iff .ok (serves_cursor sampleImage)
    (Cursor.on_start sampleImage) h).1
  simp only [Medium.memory_bytes, hfields] at hiff
  exact ⟨r₀, h, hiff⟩

/-- An empty L1 table under a disk of one cluster. -/
def unmappedImage : List UInt8 := headerBytes 2 9 512 0 72 0 0

set_option maxRecDepth 10000 in
theorem disk_beyond_l1 : ∃ r₀, fromBacking (Cursor.mk unmappedImage 0) = .ok r₀ ∧
    r₀.pos < r₀.virtualDiskSize ∧ r₀.l1Table[r₀.l1Idx r₀.pos]? = none ∧
    (answer (Qcow2Reader.read .ok [9]) r₀).1 = .ok (1, [0]) ∧
    ¬ beAt unmappedImage 24 8 ≤
      beAt unmappedImage 36 4 * (2 ^ beAt unmappedImage 20 4 / 8) * 2 ^ beAt unmappedImage 20 4 := by
  obtain ⟨r₀, h⟩ := exists_ok (x := fromBacking (Cursor.mk unmappedImage 0)) (by decide)
  have hrun : (fromBacking (Cursor.mk unmappedImage 0)).map (fun r => (r.pos, r.virtualDiskSize,
      r.l1Table, (answer (Qcow2Reader.read .ok [9]) r).1)) = .ok (0, 512, [], .ok (1, [0])) := by rfl
  rw [h] at hrun
  simp only [Except.map, Except.ok.injEq, Prod.mk.injEq] at hrun
  obtain ⟨hpos, hsize, hl1, hread⟩ := hrun
  exact ⟨r₀, h, by omega, by rw [hl1]; rfl, hread, by decide⟩

end Qcow2
