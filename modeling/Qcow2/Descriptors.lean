import Qcow2.FlatRuns

/-! Compressed-cluster descriptors: the split of the format, the split of the source,
and the round trip through the source's own. -/

namespace Qcow2

open StdIo

/-- The L2 entry over guest offset `v` is inside the image and is `e`. -/
def GuestMap.EntryAt (g : GuestMap) (M : Medium) (v e : Nat) : Prop :=
  g.l2Table v ≠ 0 ∧ g.l2Table v + v / g.clusterSize % g.slots * 8 + 8 ≤ M.bytes.length ∧
    beAt M.bytes (g.l2Table v + v / g.clusterSize % g.slots * 8) 8 = e

instance (g : GuestMap) (M : Medium) (v e : Nat) : Decidable (g.EntryAt M v e) :=
  inferInstanceAs (Decidable (_ ∧ _ ∧ _))

namespace GuestMap.EntryAt

variable {g : GuestMap} {M : Medium} {v e : Nat}

theorem lt (h : g.EntryAt M v e) : e < 2 ^ 64 := by
  rw [← h.2.2]
  exact beAt_lt _ _ _

theorem cluster_eq (h : g.EntryAt M v e) : g.cluster M v = .ok (g.entryRef e) := by
  obtain ⟨htable, hin, rfl⟩ := h
  have hread := (M.readExactAt_eq_ok_iff (by decide : 0 < 8)).mpr ⟨hin, rfl⟩
  rw [cluster, if_neg htable, hread]
  rfl

end GuestMap.EntryAt

/-- The number of offset bits in the format's descriptor. -/
def formatSplit (clusterBits : Nat) : Nat := 62 - (clusterBits - 8)

def formatOffset (clusterBits e : Nat) : Nat := e % 2 ^ formatSplit clusterBits

/-- The sectors beyond the one that holds the offset. -/
def formatExtra (clusterBits e : Nat) : Nat :=
  e / 2 ^ formatSplit clusterBits % 2 ^ (62 - formatSplit clusterBits)

theorem entryRef_compressed (g : GuestMap) {e : Nat} (h : e.testBit 62 = true) :
    g.entryRef e = .compressed (e % 2 ^ (63 - g.clusterBits))
      ((e / 2 ^ (63 - g.clusterBits) % 2 ^ (g.clusterBits - 1) + 1) * 512) := if_pos h

section Split

variable {c e : Nat}

theorem offset_of_formatOffset_lt (hc : 9 ≤ c ∧ c ≤ 20) (h : formatOffset c e < 2 ^ (63 - c)) :
    e % 2 ^ (63 - c) = formatOffset c e := by
  have hdvd : 2 ^ (63 - c) ∣ 2 ^ formatSplit c := Nat.pow_dvd_pow 2 (by unfold formatSplit; omega)
  rw [← Nat.mod_mod_of_dvd e hdvd]
  exact Nat.mod_eq_of_lt h

theorem count_of_formatOffset_lt (hc : 9 ≤ c ∧ c ≤ 20) (h : formatOffset c e < 2 ^ (63 - c)) :
    e / 2 ^ (63 - c) % 2 ^ (c - 1) = formatExtra c e * 2 ^ 7 := by
  have hbits : formatSplit c = 62 - (c - 8) := rfl
  have hsplit : 2 ^ formatSplit c = 2 ^ (63 - c) * 2 ^ 7 := two_pow_eq_mul (by omega)
  have hcount : 2 ^ (c - 1) = 2 ^ 7 * 2 ^ (62 - formatSplit c) := two_pow_eq_mul (by omega)
  have hlow : e / 2 ^ (63 - c) % 2 ^ 7 = 0 := by
    rw [← Nat.mod_mul_right_div_self, ← hsplit]
    exact Nat.div_eq_of_lt h
  rw [hcount, Nat.mod_mul, hlow, Nat.zero_add, Nat.div_div_eq_div_mul, ← hsplit, Nat.mul_comm]
  rfl

end Split

namespace Qcow2Reader

variable {β : Type} [ReadSeek β] {M : Medium} {cursor : β → Nat → Prop} {L : Layout}

theorem clusterRefFor_entry (S : Serves M cursor) {p v e : Nat} {r : Qcow2Reader β}
    (hr : At cursor L p r) (hv : v < 2 ^ 64) (he : L.guestMap.EntryAt M v e) :
    outcome ((clusterRefFor v).run r) = .ok (L.guestMap.entryRef e) := by
  rw [(clusterRefFor_computes S L p hv).outcome_eq hr, he.cluster_eq]

/-- A compressed cluster is located as the format lays its descriptor out exactly when
the offset keeps out of the bits that the source counts sectors in. -/
theorem compressed_located_iff (S : Serves M cursor) {p v e : Nat} {r : Qcow2Reader β}
    (hr : At cursor L p r) (hv : v < 2 ^ 64) (he : L.guestMap.EntryAt M v e)
    (hbit : e.testBit 62 = true) :
    (∃ fileOffset compressedBytes,
        outcome ((clusterRefFor v).run r) = .ok (.compressed fileOffset compressedBytes) ∧
        fileOffset = formatOffset L.clusterBits e ∧
        ∀ i, formatOffset L.clusterBits e ≤ i →
          i < (formatOffset L.clusterBits e / 512 + formatExtra L.clusterBits e + 1) * 512 →
            fileOffset ≤ i ∧ i < fileOffset + compressedBytes) ↔
      formatOffset L.clusterBits e < 2 ^ (63 - L.clusterBits) := by
  have href := clusterRefFor_entry S hr hv he
  rw [entryRef_compressed _ hbit] at href
  constructor
  · rintro ⟨fileOffset, n, hrun, hoff, -⟩
    rw [href] at hrun
    injection hrun with hrun
    injection hrun with hfield
    rw [← hoff, ← hfield]
    exact Nat.mod_lt _ (by positivity)
  · intro hlt
    refine ⟨_, _, href, offset_of_formatOffset_lt L.clusterBits_range hlt, ?_⟩
    intro i hl hu
    have hoff := offset_of_formatOffset_lt L.clusterBits_range hlt
    have hcount := count_of_formatOffset_lt L.clusterBits_range hlt
    simp only [Layout.guestMap, hoff, hcount]
    omega

end Qcow2Reader

/-- The only entry places its cluster at `2 ^ 43`, in clusters of 1 MiB. -/
def highOffset : List UInt8 :=
  headerBytes 2 20 512 1 72 0 0 ++ beBytes 8 80 ++ beBytes 8 (2 ^ 62 + 2 ^ 43)

set_option maxRecDepth 10000 in
theorem highOffset_opened : ∃ r₀, fromBacking (Cursor.mk highOffset 0) = .ok r₀ ∧
    r₀.clusterBits = 20 ∧ r₀.guestMap.EntryAt (Medium.memory highOffset) 0 (2 ^ 62 + 2 ^ 43) := by
  obtain ⟨r₀, h, hfields⟩ := exists_ok_map (x := fromBacking (Cursor.mk highOffset 0))
    (f := fun r => (r.clusterBits,
      decide (r.guestMap.EntryAt (Medium.memory highOffset) 0 (2 ^ 62 + 2 ^ 43))))
    (b := (20, true)) (by decide)
  simp only [Prod.mk.injEq, decide_eq_true_eq] at hfields
  exact ⟨r₀, h, hfields⟩

theorem compressed_located_iff_sample : ∃ r₀, fromBacking (Cursor.mk highOffset 0) = .ok r₀ ∧
    ((∃ fileOffset compressedBytes, outcome ((Qcow2Reader.clusterRefFor 0).run r₀) =
        .ok (.compressed fileOffset compressedBytes) ∧
        fileOffset = formatOffset r₀.clusterBits (2 ^ 62 + 2 ^ 43) ∧
        ∀ i, formatOffset r₀.clusterBits (2 ^ 62 + 2 ^ 43) ≤ i →
          i < (formatOffset r₀.clusterBits (2 ^ 62 + 2 ^ 43) / 512 +
            formatExtra r₀.clusterBits (2 ^ 62 + 2 ^ 43) + 1) * 512 →
            fileOffset ≤ i ∧ i < fileOffset + compressedBytes) ↔
      formatOffset r₀.clusterBits (2 ^ 62 + 2 ^ 43) < 2 ^ (63 - r₀.clusterBits)) := by
  obtain ⟨r₀, h, -, he⟩ := highOffset_opened
  exact ⟨r₀, h, Qcow2Reader.compressed_located_iff (serves_cursor highOffset) (opened_image h).1
    (by decide) he (by decide)⟩

theorem high_offset_read_as_sectors : ∃ r₀, fromBacking (Cursor.mk highOffset 0) = .ok r₀ ∧
    r₀.guestMap.EntryAt (Medium.memory highOffset) 0 (2 ^ 62 + 2 ^ 43) ∧
    formatOffset r₀.clusterBits (2 ^ 62 + 2 ^ 43) = 2 ^ 43 ∧
    formatExtra r₀.clusterBits (2 ^ 62 + 2 ^ 43) = 0 ∧
    outcome ((Qcow2Reader.clusterRefFor 0).run r₀) = .ok (.compressed 0 1024) := by
  obtain ⟨r₀, h, hbits, he⟩ := highOffset_opened
  have href := Qcow2Reader.clusterRefFor_entry (serves_cursor highOffset) (opened_image h).1
    (show 0 < 2 ^ 64 by decide) he
  have hmap : r₀.guestMap.clusterBits = 20 := hbits
  rw [entryRef_compressed _ (by decide), hmap] at href
  refine ⟨r₀, h, he, ?_, ?_, href⟩
  · rw [hbits]
    decide
  · rw [hbits]
    decide

/-- The descriptor of `sectors` sectors at `off`, in the source's split. -/
def encodeDescriptor (clusterBits : Nat) (copied : Bool) (sectors off : Nat) : Nat :=
  (if copied then 1 <<< 63 else 0) ||| 1 <<< 62 ||| (sectors - 1) <<< (63 - clusterBits) ||| off

section Encoding

variable {c sectors off : Nat}

theorem encodeDescriptor_eq (hc : 9 ≤ c ∧ c ≤ 20) (copied : Bool) (hs : sectors ≤ 2 ^ (c - 1))
    (hoff : off < 2 ^ (63 - c)) : encodeDescriptor c copied sectors off =
      copied.toNat * 2 ^ 63 + 2 ^ 62 + ((sectors - 1) * 2 ^ (63 - c) + off) ∧
      (sectors - 1) * 2 ^ (63 - c) + off < 2 ^ 62 := by
  have hfields : 2 ^ 62 = 2 ^ (c - 1) * 2 ^ (63 - c) := two_pow_eq_mul (by omega)
  have hpos : 0 < 2 ^ (c - 1) := by positivity
  have hlow : (sectors - 1) * 2 ^ (63 - c) + off < 2 ^ 62 :=
    calc (sectors - 1) * 2 ^ (63 - c) + off < (sectors - 1) * 2 ^ (63 - c) + 2 ^ (63 - c) :=
          Nat.add_lt_add_left hoff _
      _ = (sectors - 1 + 1) * 2 ^ (63 - c) := (Nat.succ_mul _ _).symm
      _ ≤ 2 ^ (c - 1) * 2 ^ (63 - c) := Nat.mul_le_mul_right _ (by omega)
      _ = 2 ^ 62 := hfields.symm
  refine ⟨?_, hlow⟩
  have hcount : (sectors - 1) <<< (63 - c) ||| off = (sectors - 1) * 2 ^ (63 - c) + off := by
    rw [← Nat.shiftLeft_add_eq_or_of_lt hoff, Nat.shiftLeft_eq]
  have hflag : 1 <<< 62 ||| ((sectors - 1) * 2 ^ (63 - c) + off) =
      2 ^ 62 + ((sectors - 1) * 2 ^ (63 - c) + off) := by
    rw [← Nat.shiftLeft_add_eq_or_of_lt hlow, Nat.one_shiftLeft]
  rw [encodeDescriptor, Nat.or_assoc, hcount, Nat.or_assoc, hflag]
  cases copied with
  | false => simp
  | true =>
    have hlt : 2 ^ 62 + ((sectors - 1) * 2 ^ (63 - c) + off) < 2 ^ 63 := by omega
    rw [if_pos rfl, ← Nat.shiftLeft_add_eq_or_of_lt hlt, Nat.one_shiftLeft, Bool.toNat_true]
    omega

theorem encodeDescriptor_entryRef (g : GuestMap) (hc : 9 ≤ g.clusterBits ∧ g.clusterBits ≤ 20)
    (copied : Bool) (hpos : 1 ≤ sectors) (hs : sectors ≤ 2 ^ (g.clusterBits - 1))
    (hoff : off < 2 ^ (63 - g.clusterBits)) :
    g.entryRef (encodeDescriptor g.clusterBits copied sectors off) =
      .compressed off (512 * sectors) := by
  obtain ⟨heq, hlow⟩ := encodeDescriptor_eq hc copied hs hoff
  have hfields : 2 ^ 62 = 2 ^ (63 - g.clusterBits) * 2 ^ (g.clusterBits - 1) :=
    two_pow_eq_mul (by omega)
  have hmod : encodeDescriptor g.clusterBits copied sectors off % 2 ^ 62 =
      (sectors - 1) * 2 ^ (63 - g.clusterBits) + off := by
    rw [heq]
    omega
  have hbit : (encodeDescriptor g.clusterBits copied sectors off).testBit 62 = true := by
    rw [heq, Nat.testBit_eq_decide_div_mod_eq, decide_eq_true_eq]
    omega
  have hoffset : encodeDescriptor g.clusterBits copied sectors off % 2 ^ (63 - g.clusterBits) =
      off := by
    rw [← Nat.mod_mod_of_dvd _ (Dvd.intro _ hfields.symm), hmod, Nat.mul_add_mod_self_right]
    exact Nat.mod_eq_of_lt hoff
  have hcount : encodeDescriptor g.clusterBits copied sectors off / 2 ^ (63 - g.clusterBits) %
      2 ^ (g.clusterBits - 1) = sectors - 1 := by
    rw [← Nat.mod_mul_right_div_self, ← hfields, hmod, Nat.mul_comm,
      Nat.mul_add_div (by positivity), Nat.div_eq_of_lt hoff, Nat.add_zero]
  rw [entryRef_compressed _ hbit, hoffset, hcount]
  congr 1
  omega

theorem encodeDescriptor_decoded (hc : 9 ≤ c ∧ c ≤ 20) {e : Nat} (he : e < 2 ^ 64)
    (hbit : e.testBit 62 = true) :
    encodeDescriptor c (e.testBit 63) (e / 2 ^ (63 - c) % 2 ^ (c - 1) + 1) (e % 2 ^ (63 - c)) =
      e := by
  have hfields : 2 ^ 62 = 2 ^ (63 - c) * 2 ^ (c - 1) := two_pow_eq_mul (by omega)
  have hlow : e / 2 ^ (63 - c) % 2 ^ (c - 1) * 2 ^ (63 - c) + e % 2 ^ (63 - c) = e % 2 ^ 62 := by
    rw [hfields, Nat.mod_mul, Nat.mul_comm]
    exact Nat.add_comm _ _
  have hs := Nat.mod_lt (e / 2 ^ (63 - c)) (Nat.two_pow_pos (c - 1))
  have htop : (e.testBit 63).toNat = e / 2 ^ 63 % 2 := Nat.toNat_testBit e 63
  rw [Nat.testBit_eq_decide_div_mod_eq, decide_eq_true_eq] at hbit
  rw [(encodeDescriptor_eq hc _ (by omega) (Nat.mod_lt _ (by positivity))).1,
    Nat.add_sub_cancel, hlow, htop]
  omega

end Encoding

namespace Qcow2Reader

variable {β : Type} [ReadSeek β] {M : Medium} {cursor : β → Nat → Prop} {L : Layout}
  (inflate : Inflate)

theorem read_inflated (S : Serves M cursor) {p off n : Nat} {r : Qcow2Reader β}
    {out buf : List UInt8} (hr : At cursor L p r) (hp : p < L.virtualDiskSize) (hbuf : buf ≠ [])
    (hc : L.guestMap.cluster M p = .ok (.compressed off n))
    (hinf : inflate (slice M.bytes off n) = .ok out) (hout : out.length = L.clusterSize) :
    ∃ r', (read inflate buf).run r = .ok (readLength L p buf.length,
        slice out (p % L.clusterSize) (readLength L p buf.length) ++
          buf.drop (readLength L p buf.length)) r' := by
  have hlen : buf.length ≠ 0 := mt List.length_eq_zero_iff.mp hbuf
  obtain ⟨-, -, -, hwindow⟩ := readLength_bounds hp hlen
  have hoff : off < 2 ^ 63 := GuestMap.cluster_bounded hc
  have href := clusterRefFor_computes S L p (hp.trans L.virtualDiskSize_lt)
  have hinflated := decompressCluster_computes inflate S L p n hoff
  have hpad : padTo L.clusterSize out = out := by simp [padTo, hout]
  rw [hc] at href
  rw [hinf, Except.mapError, Except.map, hpad] at hinflated
  obtain ⟨r₁, -, hrun⟩ := href.bind_ok (f := readCluster inflate (p % L.guestMap.clusterSize)
    (readLength L p buf.length)) (hinflated.map _) r hr
  have hbytes := readBytes_run inflate hr hp hlen hrun
  rw [L.guestMap_clusterSize] at hbytes hwindow
  have hslice : (slice out (p % L.clusterSize) (readLength L p buf.length)).length =
      readLength L p buf.length := length_slice_of_le (by omega)
  refine ⟨{ r₁ with pos := r₁.pos + readLength L p buf.length }, ?_⟩
  rw [read, EStateM.run_bind, hbytes]
  simp only [Except.map, withState_ok, EStateM.run_pure, FlatDisk.after, hslice]

/-- Descriptors and their fields determine each other, and a read in a compressed
cluster returns the bytes that its window inflates to. -/
theorem compressed_round_trip (S : Serves M cursor) {p : Nat} {r : Qcow2Reader β}
    (hr : At cursor L p r) :
    (∀ v copied sectors off, v < 2 ^ 64 → 1 ≤ sectors → sectors ≤ 2 ^ (L.clusterBits - 1) →
        off < 2 ^ (63 - L.clusterBits) →
        L.guestMap.EntryAt M v (encodeDescriptor L.clusterBits copied sectors off) →
          outcome ((clusterRefFor v).run r) = .ok (.compressed off (512 * sectors))) ∧
      (∀ v e, v < 2 ^ 64 → L.guestMap.EntryAt M v e → e.testBit 62 = true →
        ∃ sectors off, outcome ((clusterRefFor v).run r) = .ok (.compressed off (512 * sectors)) ∧
          1 ≤ sectors ∧ sectors ≤ 2 ^ (L.clusterBits - 1) ∧ off < 2 ^ (63 - L.clusterBits) ∧
          encodeDescriptor L.clusterBits (e.testBit 63) sectors off = e) ∧
      ∀ copied sectors off P buf, 1 ≤ sectors → sectors ≤ 2 ^ (L.clusterBits - 1) →
        off < 2 ^ (63 - L.clusterBits) →
        L.guestMap.EntryAt M p (encodeDescriptor L.clusterBits copied sectors off) →
        inflate (slice M.bytes off (512 * sectors)) = .ok P → P.length = L.clusterSize →
        p < L.virtualDiskSize → buf ≠ [] →
          let n := min (min buf.length (L.clusterSize - p % L.clusterSize)) (L.virtualDiskSize - p)
          ∃ r', (read inflate buf).run r =
            .ok (n, slice P (p % L.clusterSize) n ++ buf.drop n) r' := by
  refine ⟨?_, ?_, ?_⟩
  · intro v copied sectors off hv hpos hs hoff he
    rw [clusterRefFor_entry S hr hv he]
    exact congrArg _ (encodeDescriptor_entryRef L.guestMap L.clusterBits_range copied hpos hs hoff)
  · intro v e hv he hbit
    have hs := Nat.mod_lt (e / 2 ^ (63 - L.clusterBits)) (Nat.two_pow_pos (L.clusterBits - 1))
    refine ⟨e / 2 ^ (63 - L.clusterBits) % 2 ^ (L.clusterBits - 1) + 1,
      e % 2 ^ (63 - L.clusterBits), ?_, by omega, by omega, Nat.mod_lt _ (by positivity),
      encodeDescriptor_decoded L.clusterBits_range he.lt hbit⟩
    rw [clusterRefFor_entry S hr hv he, entryRef_compressed _ hbit, Nat.mul_comm]
    rfl
  · intro copied sectors off P buf hpos hs hoff he hinf hP hp hbuf n
    have href := encodeDescriptor_entryRef L.guestMap L.clusterBits_range copied hpos hs hoff
    have hn : readLength L p buf.length = n := by
      rw [readLength, L.guestMap_clusterSize]
      omega
    rw [← hn]
    exact read_inflated inflate S hr hp hbuf (he.cluster_eq.trans (congrArg _ href)) hinf hP

end Qcow2Reader

/-- One compressed cluster of one sector behind its own descriptor. -/
def compressedImage : List UInt8 :=
  headerBytes 2 9 512 1 72 0 0 ++ beBytes 8 80 ++ beBytes 8 (encodeDescriptor 9 true 1 88) ++ [1, 2, 3]

def inflateSevens : Inflate := fun _ => .ok (List.replicate 512 7)

set_option maxRecDepth 10000 in
theorem compressed_round_trip_sample : ∃ r₀, fromBacking (Cursor.mk compressedImage 0) = .ok r₀ ∧
    outcome ((Qcow2Reader.clusterRefFor 0).run r₀) = .ok (.compressed 88 512) ∧
    encodeDescriptor 9 true 1 88 = 2 ^ 63 + 2 ^ 62 + 88 ∧
    ∃ r', (Qcow2Reader.read inflateSevens [0, 0]).run r₀ = .ok (2, [7, 7]) r' := by
  obtain ⟨r₀, h, hfields⟩ := exists_ok_map (x := fromBacking (Cursor.mk compressedImage 0))
    (f := fun r => (r.clusterBits, r.clusterSize, r.virtualDiskSize, decide (r.guestMap.EntryAt
      (Medium.memory compressedImage) 0 (encodeDescriptor 9 true 1 88))))
    (b := (9, 512, 512, true)) (by decide)
  simp only [Prod.mk.injEq, decide_eq_true_eq] at hfields
  obtain ⟨hbits, hcs, hsize, he⟩ := hfields
  obtain ⟨hdecode, -, hread⟩ := Qcow2Reader.compressed_round_trip inflateSevens
    (serves_cursor compressedImage) (opened_image h).1
  rw [hbits] at hdecode hread
  rw [hcs, hsize] at hread
  exact ⟨r₀, h, hdecode 0 true 1 88 (by decide) (by decide) (by decide) (by decide) he, by decide,
    hread true 1 88 (List.replicate 512 7) [0, 0] (by decide) (by decide) (by decide) he rfl
      (by simp) (by decide) (by decide)⟩

end Qcow2
