import Qcow2.OpenPosition

/-! The reader on targets whose `usize` has 32 bits, against the reader on 64-bit ones. -/

namespace Qcow2

open StdIo

abbrev target32 : Target := ⟨32⟩

def l1Slot [Target] (L : Layout) (v : Nat) : Option Nat :=
  let l1Idx := asUsize (v >>> trailingZeros L.clusterSize >>> L.l2Bits)
  if l1Idx < L.l1Table.length then some l1Idx else none

theorem l1Slot_entry (t : Target) (L : Layout) (v : Nat) :
    L.l1Table[@asUsize t (v >>> trailingZeros L.clusterSize >>> L.l2Bits)]? =
      (@l1Slot t L v).bind (L.l1Table[·]?) := by
  unfold l1Slot
  simp only
  split_ifs with h
  · rfl
  · exact List.getElem?_eq_none (by omega)

def SlotWraps (L : Layout) (p : Nat) : Prop :=
  2 ^ 32 ≤ p / L.guestMap.clusterSize / L.guestMap.slots ∧
    p / L.guestMap.clusterSize / L.guestMap.slots % 2 ^ 32 < L.l1Table.length

/-- The rest of the disk as 32 bits of it tell. -/
def wrappedRest (L : Layout) (p : Nat) : Nat := (L.virtualDiskSize - p) % 2 ^ 32

/-- The wrapped rest of the disk ends a read of `n` bytes inside a cluster. -/
structure CutShort (L : Layout) (p n : Nat) : Prop where
  wraps : 2 ^ 32 ≤ L.virtualDiskSize - p
  asked : wrappedRest L p < n
  inside : p % L.guestMap.clusterSize + wrappedRest L p < L.clusterSize

theorem l1Slot_eq_iff {L : Layout} (hl1 : L.l1Table.length ≤ 2 ^ 20) {p : Nat} (hp : p < 2 ^ 64) :
    @l1Slot target32 L p = l1Slot L p ↔ ¬ SlotWraps L p := by
  have hidx : p >>> trailingZeros L.clusterSize >>> L.l2Bits =
      p / L.guestMap.clusterSize / L.guestMap.slots := by
    rw [L.trailingZeros_clusterSize, shiftRight_two_pow, shiftRight_two_pow, L.l2Bits_eq,
      L.guestMap_slots]
    rfl
  have hlt : p / L.guestMap.clusterSize / L.guestMap.slots < 2 ^ 64 :=
    ((Nat.div_le_self _ _).trans (Nat.div_le_self _ _)).trans_lt hp
  have hwrapped : @asUsize target32 (p / L.guestMap.clusterSize / L.guestMap.slots) =
      p / L.guestMap.clusterSize / L.guestMap.slots % 2 ^ 32 := rfl
  unfold l1Slot SlotWraps
  simp only [hidx, hwrapped, asUsize_of_lt hlt]
  generalize p / L.guestMap.clusterSize / L.guestMap.slots = i
  by_cases hsmall : i < 2 ^ 32
  · rw [Nat.mod_eq_of_lt hsmall]
    exact iff_of_true rfl (by omega)
  · rw [if_neg (show ¬ i < L.l1Table.length by omega)]
    split_ifs with hin
    · exact iff_of_false (by simp) (by omega)
    · exact iff_of_true rfl (by omega)

namespace Qcow2Reader

variable {β : Type} [ReadSeek β]

theorem refOfEntry_target32 (L : Layout) (e : Nat) :
    @refOfEntry target32 L.clusterSize e = refOfEntry L.clusterSize e := by
  have h := L.clusterBits_range
  have hcount : e >>> (63 - L.clusterBits) &&& (1 <<< (L.clusterBits - 1) - 1) < 2 ^ 19 := by
    rw [Nat.one_shiftLeft, land_low]
    exact (Nat.mod_lt _ (by positivity)).trans_le (Nat.pow_le_pow_right (by omega) (by omega))
  simp only [refOfEntry, L.trailingZeros_clusterSize]
  rw [@asUsize_of_width target32 le_rfl _ (by omega), asUsize_of_lt (by omega)]

theorem clusterRefFor_target32 {r : Qcow2Reader β} {v : Nat}
    (hslot : @l1Slot target32 r.toLayout v = l1Slot r.toLayout v) :
    (@clusterRefFor β _ target32 v).run r = (clusterRefFor v).run r := by
  simp only [clusterRefFor, EStateM.run_bind, EStateM.run_get, l1Slot_entry, hslot,
    refOfEntry_target32]

theorem clusterSize_target32 (L : Layout) : @asUsize target32 L.clusterSize = asUsize L.clusterSize := by
  have hle := L.clusterSize_le
  rw [@asUsize_of_width target32 le_rfl _ (by omega), asUsize_of_lt (by omega)]

theorem readCluster_target32 (inflate : Inflate) (j m : Nat) (c : ClusterRef) (r : Qcow2Reader β) :
    (@readCluster β _ target32 inflate j m c).run r = (readCluster inflate j m c).run r := by
  cases c with
  | compressed off n =>
    simp only [readCluster, decompressCluster, EStateM.run_bind, EStateM.run_get, clusterSize_target32]
  | _ => rfl

/-- The 32-bit read asks for what the 64-bit one asks for, or for the wrapped rest of the
disk where that is less. -/
theorem readBytes_target32_run (inflate : Inflate) {cursor : β → Nat → Prop} {L : Layout} {p n : Nat}
    {r r₂ : Qcow2Reader β} {o : Except IoError (List UInt8)} (hr : At cursor L p r)
    (hp : p < L.virtualDiskSize) (hn : n ≠ 0) (hslot : @l1Slot target32 L p = l1Slot L p)
    (h : (clusterRefFor p >>= readCluster inflate (p % L.guestMap.clusterSize)
      (min (readLength L p n) (wrappedRest L p))).run r = withState o r₂) :
    (@readBytes β _ target32 inflate n).run r =
      withState o { r₂ with pos := FlatDisk.after r₂.pos o } := by
  have hwrapped : @asUsize target32 (L.virtualDiskSize - p) = wrappedRest L p := rfl
  have hle : wrappedRest L p ≤ L.virtualDiskSize - p := Nat.mod_le _ _
  have hmin : min (min n (wrappedRest L p)) (L.clusterSize - p % L.guestMap.clusterSize) =
      min (readLength L p n) (wrappedRest L p) := by
    rw [readLength]
    omega
  apply @readBytes_run_on β _ cursor L inflate target32 le_rfl p n r r₂ o hr hp hn
  rw [hwrapped, hmin, ← h, EStateM.run_bind, EStateM.run_bind,
    clusterRefFor_target32 (by rw [hr.1]; exact hslot)]
  simp only [readCluster_target32]

theorem clusterOut_eq_iff (inflate : Inflate) (M : Medium) (L : Layout) {j m₁ m₂ : Nat} (hlt : m₁ < m₂)
    (hle : j + m₂ ≤ L.clusterSize) (c : ClusterRef) :
    clusterOut inflate M (slice M.bytes) L j m₁ c = clusterOut inflate M (slice M.bytes) L j m₂ c ↔
      ∀ x, GuestMap.fetchIn M inflate c (j + m₁) ≠ .ok (some x) := by
  have hzeros : (.ok (List.replicate m₁ 0) : Except IoError (List UInt8)) ≠ .ok (List.replicate m₂ 0) := by
    intro h
    have hlen := congrArg List.length (Except.ok.inj h)
    simp only [List.length_replicate] at hlen
    omega
  cases c with
  | unallocated => exact iff_of_false hzeros fun h => h 0 rfl
  | zeroCluster => exact iff_of_false hzeros fun h => h 0 rfl
  | normal off =>
    have hend : (∀ x, GuestMap.fetchIn M inflate (.normal off) (j + m₁) ≠ .ok (some x)) ↔
        M.bytes.length ≤ off + j + m₁ := by
      rw [← List.getElem?_eq_none_iff, Option.eq_none_iff_forall_ne_some, Nat.add_assoc]
      simp [GuestMap.fetchIn]
    have h₁ := length_slice M.bytes (off + j) m₁
    have h₂ := length_slice M.bytes (off + j) m₂
    rw [hend, clusterOut, clusterOut, Except.ok.injEq]
    constructor
    · intro h
      have hlen := congrArg List.length h
      omega
    · intro h
      rw [show m₂ = m₁ + (m₂ - m₁) by omega, slice_add,
        slice_eq_nil_iff.mpr (.inr h), List.append_nil]
  | compressed off n =>
    rw [clusterOut, clusterOut, GuestMap.fetchIn]
    cases inflate (slice M.bytes off n) with
    | error e => exact iff_of_true rfl fun x => by simp [Except.mapError, Except.map]
    | ok out =>
      refine iff_of_false ?_ fun h => h _ rfl
      intro h
      have hlen := congrArg List.length (Except.ok.inj h)
      have hpad := length_padTo L.clusterSize out
      rw [length_slice, length_slice] at hlen
      omega

/-- One read has the same result, leaves the same position and looks at the same slot of
the L1 table on both targets. -/
def SameRead (inflate : Inflate) (r : Qcow2Reader β) (buf : List UInt8) : Prop :=
  (answer (@read β _ target32 inflate buf) r).1 = (answer (read inflate buf) r).1 ∧
    (answer (@read β _ target32 inflate buf) r).2.pos = (answer (read inflate buf) r).2.pos ∧
    (r.pos < r.virtualDiskSize → buf ≠ [] →
      @l1Slot target32 r.toLayout r.pos = l1Slot r.toLayout r.pos)

variable {M : Medium} {cursor : β → Nat → Prop} {L : Layout} (inflate : Inflate)

theorem cutShort_iff {p n : Nat} : CutShort L p n ↔ wrappedRest L p < readLength L p n := by
  have hrest : wrappedRest L p = (L.virtualDiskSize - p) % 2 ^ 32 := rfl
  constructor
  · rintro ⟨hwraps, hasked, hinside⟩
    rw [readLength]
    omega
  · intro h
    rw [readLength] at h
    exact ⟨by omega, by omega, by omega⟩

theorem readBytes_end [Target] {r : Qcow2Reader β} {n : Nat} (h : r.virtualDiskSize ≤ r.pos ∨ n = 0) :
    (readBytes inflate n).run r = .ok [] r := by
  simp [readBytes, h]

/-- A read that stops `m₁` bytes into a cluster tells no less than a longer one exactly
where the guest has no byte there. -/
theorem resolve_eq_iff {p m₁ m₂ : Nat} (hlt : m₁ < m₂)
    (hle : p % L.guestMap.clusterSize + m₂ ≤ L.clusterSize) :
    (L.guestMap.cluster M p).bind
          (clusterOut inflate M (slice M.bytes) L (p % L.guestMap.clusterSize) m₁) =
        (L.guestMap.cluster M p).bind
          (clusterOut inflate M (slice M.bytes) L (p % L.guestMap.clusterSize) m₂) ↔
      (L.guestMap.disk M inflate).get? (p + m₁) = none := by
  have hmap := L.guestMap_clusterSize
  obtain ⟨hsame, hmod⟩ := GuestMap.cluster_add (M := M)
    (show p % L.guestMap.clusterSize + m₁ < L.guestMap.clusterSize by omega)
  have hfetch : (L.guestMap.disk M inflate).fetch (p + m₁) = (L.guestMap.cluster M p).bind
      fun c => GuestMap.fetchIn M inflate c (p % L.guestMap.clusterSize + m₁) := by
    simp only [GuestMap.disk, hsame, hmod]
    rfl
  rw [Option.eq_none_iff_forall_ne_some]
  simp only [ne_eq, FlatDisk.get?_eq_some_iff, hfetch]
  cases L.guestMap.cluster M p with
  | error e => exact iff_of_true rfl fun x => by simp [Except.bind]
  | ok c => exact clusterOut_eq_iff inflate M L hlt hle c

theorem answer_injective (buf : List UInt8) : Function.Injective fun o : Except IoError (List UInt8) =>
    o.map fun bs => (bs.length, bs ++ buf.drop bs.length) := by
  intro o o' h
  cases o with
  | error e =>
    cases o' with
    | error e' => exact congrArg Except.error (Except.error.inj h)
    | ok bs' => cases h
  | ok bs =>
    cases o' with
    | error e' => cases h
    | ok bs' =>
      obtain ⟨hlen, hbytes⟩ := Prod.mk.inj (Except.ok.inj h)
      exact congrArg Except.ok (List.append_inj hbytes hlen).1

theorem sameSlot_iff (hl1 : L.l1Table.length ≤ 2 ^ 20) (p : Nat) (buf : List UInt8) :
    (p < L.virtualDiskSize → buf ≠ [] → @l1Slot target32 L p = l1Slot L p) ↔
      L.virtualDiskSize ≤ p ∨ buf = [] ∨ ¬ SlotWraps L p := by
  have hdisk := L.virtualDiskSize_lt
  by_cases hp : p < L.virtualDiskSize
  · rw [l1Slot_eq_iff hl1 (show p < 2 ^ 64 by omega)]
    have hnot : ¬ L.virtualDiskSize ≤ p := by omega
    simp only [hp, hnot, forall_const, false_or]
    exact or_iff_not_imp_left.symm
  · simp [hp, not_lt.mp hp]

theorem answer_end [Target] {r : Qcow2Reader β} {buf : List UInt8}
    (h : r.virtualDiskSize ≤ r.pos ∨ buf = []) : answer (read inflate buf) r = (.ok (0, buf), r) := by
  have hrun : (readBytes inflate buf.length).run r = withState (.ok []) r :=
    readBytes_end inflate (h.imp_right List.length_eq_zero_iff.mpr)
  exact answer_read inflate hrun

/-- Inside the disk the targets part at a wrapped slot or a read cut short before a
guest byte. -/
theorem sameRead_inside_iff (S : ServesSteadily M cursor (slice M.bytes))
    {p : Nat} {r : Qcow2Reader β} (hr : At cursor L p r) (hp : p < L.virtualDiskSize)
    {buf : List UInt8} (hn : buf.length ≠ 0) (hslot : @l1Slot target32 L p = l1Slot L p) :
    (answer (@read β _ target32 inflate buf) r).1 = (answer (read inflate buf) r).1 ∧
        (answer (@read β _ target32 inflate buf) r).2.pos = (answer (read inflate buf) r).2.pos ↔
      (CutShort L p buf.length → (L.guestMap.disk M inflate).get? (p + wrappedRest L p) = none) := by
  obtain ⟨r₁, hr₁, hrun₁⟩ := resolve_steady inflate S L hp (readLength L p buf.length) r hr
  obtain ⟨r₂, hr₂, hrun₂⟩ := resolve_steady inflate S L hp
    (min (readLength L p buf.length) (wrappedRest L p)) r hr
  have hwide := answer_read inflate (readBytes_run inflate hr hp hn hrun₁)
  have hnarrow := @answer_read β _ inflate target32 _ _ _ _
    (readBytes_target32_run inflate hr hp hn hslot hrun₂)
  rw [hwide, hnarrow, hr₁.2.1, hr₂.2.1, (answer_injective buf).eq_iff]
  by_cases hcut : CutShort L p buf.length
  · have hlt := cutShort_iff.mp hcut
    have hsame := resolve_eq_iff inflate (M := M) hlt (readLength_bounds hp hn).2.2.2
    rw [Nat.min_eq_right hlt.le]
    constructor
    · intro h _
      exact hsame.mp h.1
    · intro h
      have heq := hsame.mpr (h hcut)
      exact ⟨heq, by rw [heq]⟩
  · have hle := not_lt.mp (mt cutShort_iff.mpr hcut)
    rw [Nat.min_eq_left hle]
    exact iff_of_true ⟨rfl, rfl⟩ fun h => absurd h hcut

theorem sameRead_iff (S : ServesSteadily M cursor (slice M.bytes)) (hl1 : L.l1Table.length ≤ 2 ^ 20)
    {p : Nat} {r : Qcow2Reader β} (hr : At cursor L p r) (buf : List UInt8) :
    SameRead inflate r buf ↔ L.virtualDiskSize ≤ p ∨ buf = [] ∨ ¬ SlotWraps L p ∧
      (CutShort L p buf.length → (L.guestMap.disk M inflate).get? (p + wrappedRest L p) = none) := by
  have hat := hr
  obtain ⟨hlayout, hpos, -⟩ := hat
  unfold SameRead
  rw [hlayout, hpos, sameSlot_iff hl1]
  by_cases hend : L.virtualDiskSize ≤ p ∨ buf = []
  · have hdone : r.virtualDiskSize ≤ r.pos ∨ buf = [] := by rwa [hlayout, hpos]
    rw [answer_end inflate hdone, @answer_end β _ inflate target32 _ _ hdone, ← or_assoc, ← or_assoc]
    exact iff_of_true ⟨rfl, rfl, .inl hend⟩ (.inl hend)
  · have hp : p < L.virtualDiskSize := by omega
    have hn : buf.length ≠ 0 := fun h => hend (.inr (List.length_eq_zero_iff.mp h))
    rw [← or_assoc, ← or_assoc, or_iff_right hend, or_iff_right hend]
    by_cases hwrap : SlotWraps L p
    · exact iff_of_false (fun h => h.2.2 hwrap) fun h => h.1 hwrap
    · have hslot := (l1Slot_eq_iff hl1 (hp.trans L.virtualDiskSize_lt)).mpr hwrap
      rw [← sameRead_inside_iff inflate S hr hp hn hslot]
      exact ⟨fun h => ⟨hwrap, h.1, h.2.1⟩, fun h => ⟨h.2.1, h.2.2, hwrap⟩⟩

end Qcow2Reader

section Opening

variable {β : Type} [ReadSeek β]

theorem fromBacking_target32 (b : β) : @fromBacking β _ target32 b = fromBacking b := by
  have hload : (@loadLayout β _ target32).run b = loadLayout.run b := by
    simp only [loadLayout, EStateM.run_bind]
    cases (io (readWindow 104)).run b with
    | error e b₁ => rfl
    | ok hdrBuf b₁ =>
      simp only [run_fromResult]
      cases Qcow2Header.parse hdrBuf with
      | error e => rfl
      | ok hdr =>
        simp only [withState_ok]
        by_cases hbig : maxL1Entries < hdr.l1Size
        · simp only [if_pos hbig]
          rfl
        · have hmax : maxL1Entries = 2 ^ 20 := rfl
          rw [@asUsize_of_width target32 le_rfl _ (by omega), asUsize_of_lt (by omega)]
  simp only [fromBacking, hload]

/-- Both targets open the same images. On an opened one they part where the L1 index wraps
into the table, and where the wrapped rest of the disk ends a read before a guest byte. -/
theorem targets_agree_iff {M : Medium} {cursor : β → Nat → Prop} (inflate : Inflate)
    (S : ServesSteadily M cursor (slice M.bytes)) {b : β} (hb : cursor b 0) {r₀ : Qcow2Reader β}
    (h : fromBacking b = .ok r₀) :
    @fromBacking β _ target32 b = .ok r₀ ∧
      ∀ p r buf, Qcow2Reader.At cursor r₀.toLayout p r →
        (Qcow2Reader.SameRead inflate r buf ↔ r₀.virtualDiskSize ≤ p ∨ buf = [] ∨
          ¬ SlotWraps r₀.toLayout p ∧ (CutShort r₀.toLayout p buf.length →
            (r₀.guestMap.disk M inflate).get? (p + wrappedRest r₀.toLayout p) = none)) := by
  obtain ⟨hopen, -⟩ := fromBacking_at S.toServes hb h
  have hl1 : r₀.l1Table.length ≤ 2 ^ 20 := by
    obtain ⟨hdr, -, hle, -, hlayout⟩ := openedLayout_ok hopen
    have hslice := length_slice_le M.bytes hdr.l1TableOffset (hdr.l1Size * 8)
    rw [hlayout, Layout.ofHeader, length_beWords]
    omega
  exact ⟨(fromBacking_target32 b).trans h, fun p r buf hr =>
    Qcow2Reader.sameRead_iff inflate S hl1 hr buf⟩

end Opening

theorem targets_agree_iff_sample : ∃ r₀, fromBacking (Cursor.mk sampleImage 0) = .ok r₀ ∧
    Qcow2Reader.SameRead .ok r₀ [0, 0] := by
  obtain ⟨r₀, h, hfour⟩ := exists_ok_map (x := fromBacking (Cursor.mk sampleImage 0))
    (f := fun r => r.virtualDiskSize) (b := 4) (by decide)
  have hat := (fromBacking_at (serves_cursor sampleImage) (Cursor.on_start sampleImage) h).2
  refine ⟨r₀, h, ((targets_agree_iff .ok (servesSteadily_cursor sampleImage)
    (Cursor.on_start sampleImage) h).2 0 r₀ [0, 0] hat).mpr (.inr (.inr ⟨?_, ?_⟩))⟩
  · rintro ⟨hwraps, -⟩
    simp at hwraps
  · rintro ⟨hwraps, -, -⟩
    omega

/-- A disk of `2 ^ 32` bytes, none of them allocated. -/
def fourGibImage : List UInt8 := headerBytes 2 9 (2 ^ 32) 0 0 0 0

/-- The rest of the disk is all of it, and its low 32 bits are zero. -/
theorem wrapped_rest_reads_nothing : ∃ r₀, fromBacking (Cursor.mk fourGibImage 0) = .ok r₀ ∧
    @fromBacking Cursor _ target32 (Cursor.mk fourGibImage 0) = .ok r₀ ∧
    (answer (Qcow2Reader.read .ok [1]) r₀).1 = .ok (1, [0]) ∧
    (answer (@Qcow2Reader.read Cursor _ target32 .ok [1]) r₀).1 = .ok (0, [1]) := by
  obtain ⟨r₀, h, hread⟩ := exists_ok_map (x := fromBacking (Cursor.mk fourGibImage 0))
    (f := fun r => ((answer (Qcow2Reader.read .ok [1]) r).1,
      (answer (@Qcow2Reader.read Cursor _ target32 .ok [1]) r).1))
    (b := (.ok (1, [0]), .ok (0, [1]))) (by decide +kernel)
  obtain ⟨hwide, hnarrow⟩ := Prod.mk.inj hread
  exact ⟨r₀, h, (fromBacking_target32 _).trans h, hwide, hnarrow⟩

end Qcow2
