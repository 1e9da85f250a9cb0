import Qcow2.Guest

/-! Every read and seek of the reader, over any serving backing, is a step on the
flat guest disk. -/

namespace Qcow2

open StdIo

def ClusterRef.Bounded : ClusterRef → Prop
  | .normal o => o < 2 ^ 62
  | .compressed off _ => off < 2 ^ 63
  | _ => True

namespace GuestMap

variable {g : GuestMap} {M : Medium} {inflate : Inflate}

theorem entryRef_bounded (e : Nat) : (g.entryRef e).Bounded := by
  have hpow : 2 ^ (63 - g.clusterBits) ≤ 2 ^ 63 := Nat.pow_le_pow_right (by omega) (by omega)
  unfold entryRef
  split
  · have hlt : e % 2 ^ (63 - g.clusterBits) < 2 ^ (63 - g.clusterBits) :=
      Nat.mod_lt _ (by positivity)
    exact hlt.trans_le hpow
  · split
    · trivial
    · split
      · trivial
      · exact Nat.mod_lt e (by positivity)

theorem cluster_bounded {i : Nat} {c : ClusterRef} (h : g.cluster M i = .ok c) : c.Bounded := by
  unfold cluster at h
  split at h
  · cases h
    trivial
  · cases hr : M.readExactAt (g.l2Table i + i / g.clusterSize % g.slots * 8) 8 with
    | error e => simp [hr, Except.map] at h
    | ok bs =>
      simp only [hr, Except.map, Except.ok.injEq] at h
      exact h ▸ entryRef_bounded _

theorem cluster_add {p k : Nat} (h : p % g.clusterSize + k < g.clusterSize) :
    g.cluster M (p + k) = g.cluster M p ∧ (p + k) % g.clusterSize = p % g.clusterSize + k := by
  have hsplit : p + k = p % g.clusterSize + k + g.clusterSize * (p / g.clusterSize) := by
    have := Nat.mod_add_div p g.clusterSize
    omega
  have hdiv : (p + k) / g.clusterSize = p / g.clusterSize := by
    rw [hsplit, Nat.add_mul_div_left _ _ (by omega), Nat.div_eq_of_lt h, Nat.zero_add]
  have hmod : (p + k) % g.clusterSize = p % g.clusterSize + k := by
    rw [hsplit, Nat.add_mul_mod_self_left, Nat.mod_eq_of_lt h]
  have htable : g.l2Table (p + k) = g.l2Table p := by rw [l2Table, hdiv, l2Table]
  exact ⟨by rw [cluster, htable, hdiv, cluster], hmod⟩

end GuestMap

namespace Qcow2Reader

theorem length_padTo (cs : Nat) (out : List UInt8) : (padTo cs out).length = max cs out.length := by
  simp only [padTo, List.length_append, List.length_replicate]
  omega

theorem getElem?_padTo {cs j : Nat} (out : List UInt8) (h : j < cs) :
    (padTo cs out)[j]? = some (out.getD j 0) := by
  by_cases hj : j < out.length
  · simp [padTo, List.getElem?_append_left hj, hj]
  · have hrep : j - out.length < cs - out.length := by omega
    simp [padTo, List.getElem?_append_right (show out.length ≤ j by omega), hj, hrep]

variable {β : Type} [ReadSeek β] {M : Medium} {cursor : β → Nat → Prop} {L : Layout}
  (inflate : Inflate)

theorem decompressCluster_computes (S : Serves M cursor) (L : Layout) (p : Nat) {off : Nat}
    (n : Nat) (hoff : off < 2 ^ 63) :
    Computes (At cursor L p) (decompressCluster inflate off n)
      (((inflate (slice M.bytes off n)).mapError deflateError).map (padTo L.clusterSize)) := by
  intro r hr
  rcases hr with ⟨rfl, rfl, hst⟩
  have hseek : M.seekable off = true := M.seekable_of_lt off (by omega)
  have hcs : asUsize r.clusterSize = r.clusterSize :=
    asUsize_of_lt (r.clusterSize_le.trans_lt (by decide))
  obtain ⟨r', hr', hrun⟩ := onBacking_computes (L := r.toLayout) (p := r.pos)
    (S.fillAt n hseek) r ⟨rfl, rfl, hst⟩
  refine ⟨r', hr', ?_⟩
  simp only [decompressCluster, EStateM.run_bind, EStateM.run_get, hrun, withState_ok,
    run_fromResult, hcs]
  cases inflate (slice M.bytes off n) <;> rfl

theorem zeros_reads {j m : Nat} {c : ClusterRef} (hm : 0 < m) (hj : j + m ≤ L.clusterSize)
    (hc : ∀ i, GuestMap.fetchIn M inflate c i = .ok (some 0)) :
    (L.guestMap.clusterDisk M inflate c).Reads j m (.ok (List.replicate m 0)) := by
  have hsize : (L.guestMap.clusterDisk M inflate c).size = L.clusterSize := L.guestMap_clusterSize
  apply FlatDisk.Reads.of_bytes
  · simpa using hm.ne'
  · simp
  · rw [List.length_replicate, hsize]
    exact hj
  · intro k b hk
    obtain ⟨-, rfl⟩ := List.getElem?_eq_some_iff.mp hk
    rw [List.getElem_replicate]
    exact hc (j + k)

theorem normal_reads {j m o : Nat} {bs : List UInt8} (hm : 0 < m) (hj : j + m ≤ L.clusterSize)
    (hpre : bs <+: slice M.bytes (o + j) m) (hnil : bs = [] → slice M.bytes (o + j) m = []) :
    (L.guestMap.clusterDisk M inflate (.normal o)).Reads j m (.ok bs) := by
  have hsize : (L.guestMap.clusterDisk M inflate (.normal o)).size = L.clusterSize :=
    L.guestMap_clusterSize
  by_cases hbs : bs = []
  · subst hbs
    have hslice := slice_eq_nil_iff.mp (hnil rfl)
    have hnone : M.bytes[o + j]? = none := List.getElem?_eq_none (by omega)
    apply FlatDisk.Reads.of_missing
    simp [GuestMap.clusterDisk, GuestMap.fetchIn, hnone]
  · have hlen : bs.length ≤ m := hpre.length_le.trans (length_slice_le _ _ _)
    apply FlatDisk.Reads.of_bytes hbs hlen (by omega)
    intro k b hk
    have hlt : k < bs.length := (List.getElem?_eq_some_iff.mp hk).1
    have hget : M.bytes[o + j + k]? = some b := by
      rw [← getElem?_slice (show k < m by omega)]
      obtain ⟨t, ht⟩ := hpre
      rw [← ht, List.getElem?_append_left hlt, hk]
    simp [GuestMap.clusterDisk, GuestMap.fetchIn, ← Nat.add_assoc, hget]

theorem inflated_reads {j m off n : Nat} {out : List UInt8} (hm : 0 < m)
    (hj : j + m ≤ L.clusterSize) (hinf : inflate (slice M.bytes off n) = .ok out) :
    (L.guestMap.clusterDisk M inflate (.compressed off n)).Reads j m
      (.ok (slice (padTo L.clusterSize out) j m)) := by
  have hsize : (L.guestMap.clusterDisk M inflate (.compressed off n)).size = L.clusterSize :=
    L.guestMap_clusterSize
  have hpad : j + m ≤ (padTo L.clusterSize out).length := by
    rw [length_padTo]
    omega
  have hlen := length_slice_of_le hpad
  apply FlatDisk.Reads.of_bytes
  · intro he
    rw [he, List.length_nil] at hlen
    omega
  · omega
  · omega
  · intro k b hk
    have hlt : k < m := by
      have := (List.getElem?_eq_some_iff.mp hk).1
      omega
    rw [getElem?_slice hlt, getElem?_padTo out (by omega)] at hk
    simp only [Option.some.injEq] at hk
    simp [GuestMap.clusterDisk, GuestMap.fetchIn, hinf, Except.mapError, Except.map, ← hk]

theorem readCluster_reads (S : Serves M cursor) {p j m : Nat} {r : Qcow2Reader β}
    {c : ClusterRef} (hr : At cursor L p r) (hc : c.Bounded) (hm : 0 < m)
    (hj : j + m ≤ L.clusterSize) :
    ∃ o r', At cursor L p r' ∧ (readCluster inflate j m c).run r = withState o r' ∧
      (L.guestMap.clusterDisk M inflate c).Reads j m o := by
  cases c with
  | unallocated => exact ⟨_, r, hr, rfl, zeros_reads inflate hm hj fun _ => rfl⟩
  | zeroCluster => exact ⟨_, r, hr, rfl, zeros_reads inflate hm hj fun _ => rfl⟩
  | normal o =>
    have ho : o < 2 ^ 62 := hc
    have hle := L.clusterSize_le
    obtain ⟨rfl, rfl, q, hq⟩ := hr
    have hseek : M.seekable (o + j) = true := M.seekable_of_lt _ (by omega)
    obtain ⟨b₁, hb₁, hrun₁⟩ := S.seek_ok (o + j) hq hseek
    obtain ⟨bs, b₂, hb₂, hrun₂, hpre, hnil⟩ := S.read m hb₁
    refine ⟨.ok bs, { r with backing := b₂ }, ⟨rfl, rfl, _, hb₂⟩, ?_,
      normal_reads inflate hm hj hpre hnil⟩
    simp only [EStateM.run] at hrun₁ hrun₂
    simp [readCluster, onBacking, zoom, EStateM.run, bind, EStateM.bind, hrun₁, hrun₂]
  | compressed off n =>
    obtain ⟨r', hr', hrun⟩ := decompressCluster_computes inflate S L p n
      (show off < 2 ^ 63 from hc) r hr
    cases hinf : inflate (slice M.bytes off n) with
    | error e =>
      refine ⟨.error (deflateError e), r', hr', ?_, ?_⟩
      · simp [readCluster, hrun, hinf, Except.mapError, Except.map]
      · have hsize := L.guestMap_clusterSize
        apply FlatDisk.Reads.of_error hm.ne' (show j < L.guestMap.clusterSize by omega)
        simp [GuestMap.clusterDisk, GuestMap.fetchIn, hinf, Except.mapError, Except.map]
    | ok out =>
      refine ⟨.ok (slice (padTo L.clusterSize out) j m), r', hr', ?_,
        inflated_reads inflate hm hj hinf⟩
      simp [readCluster, hrun, hinf, Except.mapError, Except.map]

theorem offsetInCluster_eq [t : Target] (ht : 32 ≤ t.usizeBits) (L : Layout) (p : Nat) :
    asUsize (p &&& (L.clusterSize - 1)) = p % L.guestMap.clusterSize := by
  have hle := L.clusterSize_le
  have hlt : p % L.clusterSize < L.clusterSize := Nat.mod_lt p L.clusterSize_pos
  have hmask : p &&& (L.clusterSize - 1) = p % L.clusterSize := by
    rw [L.clusterSize_eq, land_low]
  rw [hmask, L.guestMap_clusterSize, asUsize_of_width ht (by omega)]

/-- The part of a cluster that a read of `n` bytes at `p` asks for. -/
def readLength (L : Layout) (p n : Nat) : Nat :=
  min (min n (L.virtualDiskSize - p)) (L.clusterSize - p % L.guestMap.clusterSize)

theorem readLength_bounds {p n : Nat} (hp : p < L.virtualDiskSize) (hn : n ≠ 0) :
    0 < readLength L p n ∧ readLength L p n ≤ n ∧
      p + readLength L p n ≤ L.virtualDiskSize ∧
      p % L.guestMap.clusterSize + readLength L p n ≤ L.clusterSize := by
  have hlt : p % L.guestMap.clusterSize < L.clusterSize := by
    rw [L.guestMap_clusterSize]
    exact Nat.mod_lt p L.clusterSize_pos
  unfold readLength
  omega

theorem readBytes_run_on [t : Target] (ht : 32 ≤ t.usizeBits) {p n : Nat} {r r₂ : Qcow2Reader β}
    {o : Except IoError (List UInt8)} (hr : At cursor L p r) (hp : p < L.virtualDiskSize) (hn : n ≠ 0)
    (h : (clusterRefFor p >>= readCluster inflate (p % L.guestMap.clusterSize)
      (min (min n (asUsize (L.virtualDiskSize - p)))
        (L.clusterSize - p % L.guestMap.clusterSize))).run r = withState o r₂) :
    (readBytes inflate n).run r = withState o { r₂ with pos := FlatDisk.after r₂.pos o } := by
  obtain ⟨rfl, rfl, -⟩ := hr
  have hle := r.clusterSize_le
  have hcs : asUsize r.clusterSize = r.clusterSize := asUsize_of_width ht (by omega)
  rw [EStateM.run_bind] at h
  simp only [readBytes, EStateM.run_bind, EStateM.run_get, if_neg (show
    ¬ (r.virtualDiskSize ≤ r.pos ∨ n = 0) by omega), offsetInCluster_eq ht, hcs]
  cases hc : (clusterRefFor r.pos).run r with
  | error e r₁ =>
    rw [hc] at h
    simp only at h ⊢
    cases o with
    | error e' =>
      cases h
      rfl
    | ok bs => cases h
  | ok c r₁ =>
    rw [hc] at h
    simp only at h ⊢
    rw [h]
    cases o <;> rfl

theorem readBytes_run {p n : Nat} {r r₂ : Qcow2Reader β} {o : Except IoError (List UInt8)}
    (hr : At cursor L p r) (hp : p < L.virtualDiskSize) (hn : n ≠ 0)
    (h : (clusterRefFor p >>= readCluster inflate (p % L.guestMap.clusterSize)
      (readLength L p n)).run r = withState o r₂) :
    (readBytes inflate n).run r = withState o { r₂ with pos := FlatDisk.after r₂.pos o } := by
  have hdisk := L.virtualDiskSize_lt
  have hvirtual : asUsize (L.virtualDiskSize - p) = L.virtualDiskSize - p := asUsize_of_lt (by omega)
  rw [readLength, ← hvirtual] at h
  exact readBytes_run_on inflate (by decide) hr hp hn h

/-- One read of the reader, at any position and over any serving backing, is a
read of the guest disk. -/
theorem readBytes_reads (S : Serves M cursor) {p : Nat} {r : Qcow2Reader β}
    (hr : At cursor L p r) (n : Nat) :
    ∃ o r', (readBytes inflate n).run r = withState o r' ∧
      (L.guestMap.disk M inflate).Reads p n o ∧ At cursor L (FlatDisk.after p o) r' := by
  by_cases hend : L.virtualDiskSize ≤ p ∨ n = 0
  · obtain ⟨rfl, rfl, hst⟩ := hr
    refine ⟨.ok [], r, by simp [readBytes, hend], ?_, rfl, rfl, hst⟩
    have hend' : n = 0 ∨ (r.guestMap.disk M inflate).size ≤ r.pos := hend.symm
    rw [FlatDisk.Reads, if_pos hend']
  · have hp : p < L.virtualDiskSize := by omega
    have hn : n ≠ 0 := by omega
    have hdisk := L.virtualDiskSize_lt
    obtain ⟨hpos, hle, hsize, hwindow⟩ := readLength_bounds hp hn
    obtain ⟨r₁, hr₁, hrun₁⟩ := clusterRefFor_computes S L p (show p < 2 ^ 64 by omega) r hr
    cases hc : L.guestMap.cluster M p with
    | error e =>
      rw [hc] at hrun₁
      refine ⟨.error e, _, readBytes_run (o := .error e) inflate hr hp hn
        (by rw [EStateM.run_bind, hrun₁]; rfl), ?_, hr₁⟩
      apply FlatDisk.Reads.of_error hn hp
      simp only [GuestMap.disk, hc]
      rfl
    | ok c =>
      rw [hc] at hrun₁
      obtain ⟨o, r₂, ⟨hl, hpos₂, hst₂⟩, hrun₂, hread⟩ := readCluster_reads inflate S hr₁
        (GuestMap.cluster_bounded hc) hpos hwindow
      have hreads : (L.guestMap.disk M inflate).Reads p n o := by
        have hcs := L.guestMap_clusterSize
        apply hread.of_window hpos hle hsize
          (show p % L.guestMap.clusterSize + readLength L p n ≤ L.guestMap.clusterSize by omega)
        intro k hk
        obtain ⟨hsame, hmod⟩ := GuestMap.cluster_add (M := M)
          (show p % L.guestMap.clusterSize + k < L.guestMap.clusterSize by omega)
        simp only [GuestMap.disk, hsame, hmod, hc, GuestMap.clusterDisk]
        rfl
      have hrun := readBytes_run inflate hr hp hn (by rw [EStateM.run_bind, hrun₁]; exact hrun₂)
      exact ⟨o, _, hrun, hreads, hl, by rw [← hpos₂], hst₂⟩

def seekOutcome (size p : Nat) (s : SeekFrom) : Except IoError Nat :=
  if seekTarget size p s < 0 then .error seekBeforeStart else .ok (seekTarget size p s).toNat

theorem seekOutcome_start {size p n : Nat} (hn : n < 2 ^ 63) :
    seekOutcome size p (.start n) = .ok n := by
  have htarget : seekTarget size p (.start n) = n := asI64_of_lt hn
  rw [seekOutcome, htarget, if_neg (by omega), Int.toNat_natCast]

theorem seekOutcome_far {size p n : Nat} (hn : 2 ^ 63 ≤ n) (hn' : n < 2 ^ 64) :
    seekOutcome size p (.start n) = .error seekBeforeStart := by
  have htarget : seekTarget size p (.start n) < 0 := asI64_neg hn hn'
  rw [seekOutcome, if_pos htarget]

def seekPos (p : Nat) : Except IoError Nat → Nat
  | .ok q => q
  | .error _ => p

omit [ReadSeek β] in
theorem seek_run_neg {s : SeekFrom} {r : Qcow2Reader β}
    (h : seekTarget r.virtualDiskSize r.pos s < 0) :
    (seek s).run r = .error seekBeforeStart r := by
  simp [seek, h]

omit [ReadSeek β] in
theorem seek_run_nonneg {s : SeekFrom} {r : Qcow2Reader β}
    (h : 0 ≤ seekTarget r.virtualDiskSize r.pos s) :
    (seek s).run r = .ok (seekTarget r.virtualDiskSize r.pos s).toNat
      { r with pos := (seekTarget r.virtualDiskSize r.pos s).toNat } := by
  simp [seek, show ¬ seekTarget r.virtualDiskSize r.pos s < 0 by omega]

omit [ReadSeek β] in
theorem seek_run {p : Nat} {r : Qcow2Reader β} (hr : At cursor L p r) (s : SeekFrom) :
    ∃ r', (seek s).run r = withState (seekOutcome L.virtualDiskSize p s) r' ∧
      At cursor L (seekPos p (seekOutcome L.virtualDiskSize p s)) r' := by
  obtain ⟨rfl, rfl, hst⟩ := hr
  unfold seekOutcome
  by_cases hneg : seekTarget r.virtualDiskSize r.pos s < 0
  · rw [if_pos hneg]
    exact ⟨r, seek_run_neg hneg, rfl, rfl, hst⟩
  · rw [if_neg hneg]
    exact ⟨_, seek_run_nonneg (by omega), rfl, rfl, hst⟩

end Qcow2Reader

/-- What opening computes from the content alone. -/
def openedLayout (M : Medium) : Except Qcow2Error Layout :=
  match Qcow2Header.parse (slice M.bytes 0 104) with
  | .error e => .error e
  | .ok hdr =>
    if maxL1Entries < hdr.l1Size then .error (.l1TableTooLarge hdr.l1Size)
    else ((M.readExactAt hdr.l1TableOffset (hdr.l1Size * 8)).mapError .io).map (Layout.ofHeader hdr)

/-- The same with the header taken from wherever the source stands. -/
def openedAt (M : Medium) (p : Nat) : Except Qcow2Error Layout :=
  match Qcow2Header.parse (slice M.bytes p 104) with
  | .error e => .error e
  | .ok hdr =>
    if maxL1Entries < hdr.l1Size then .error (.l1TableTooLarge hdr.l1Size)
    else ((M.readExactAt hdr.l1TableOffset (hdr.l1Size * 8)).mapError .io).map (Layout.ofHeader hdr)

section Opening

variable {β : Type} [ReadSeek β] {M : Medium} {cursor : β → Nat → Prop}

theorem loadLayout_run (S : Serves M cursor) {b : β} {p : Nat} (hb : cursor b p) :
    ∃ b', Serves.Standing cursor b' ∧ loadLayout.run b = withState (openedAt M p) b' := by
  obtain ⟨b₁, hb₁, hrun₁⟩ := S.fill 104 hb
  have hio : (io (readWindow 104)).run b = .ok (slice M.bytes p 104) b₁ :=
    run_io (o := .ok (slice M.bytes p 104)) hrun₁
  cases hp : Qcow2Header.parse (slice M.bytes p 104) with
  | error e => exact ⟨b₁, ⟨_, hb₁⟩, by simp [loadLayout, openedAt, hio, hp]⟩
  | ok hdr =>
    by_cases hbig : maxL1Entries < hdr.l1Size
    · exact ⟨b₁, ⟨_, hb₁⟩, by simp [loadLayout, openedAt, hio, hp, hbig]⟩
    · have hsize : asUsize (hdr.l1Size * 8) = hdr.l1Size * 8 :=
        asUsize_of_lt (by have := hdr.l1Size_lt; omega)
      obtain ⟨b₂, hb₂, hrun₂⟩ := (S.readExactAt hdr.l1TableOffset (hdr.l1Size * 8)) b₁ ⟨_, hb₁⟩
      refine ⟨b₂, hb₂, ?_⟩
      simp only [loadLayout, openedAt, EStateM.run_bind, hio, run_fromResult, hp, withState_ok,
        if_neg hbig, hsize, run_io hrun₂]
      cases M.readExactAt hdr.l1TableOffset (hdr.l1Size * 8) <;> rfl

theorem fromBacking_from (S : Serves M cursor) {b : β} {p : Nat} (hb : cursor b p) :
    ∃ b', Serves.Standing cursor b' ∧
      fromBacking b = (openedAt M p).map fun L => { L with backing := b', pos := 0 } := by
  obtain ⟨b', hb', hrun⟩ := loadLayout_run S hb
  refine ⟨b', hb', ?_⟩
  rw [fromBacking, hrun]
  cases openedAt M p <;> rfl

theorem fromBacking_eq (S : Serves M cursor) {b : β} (hb : cursor b 0) :
    ∃ b', Serves.Standing cursor b' ∧
      fromBacking b = (openedLayout M).map fun L => { L with backing := b', pos := 0 } :=
  fromBacking_from S hb

theorem fromBacking_at (S : Serves M cursor) {b : β} (hb : cursor b 0) {r : Qcow2Reader β}
    (h : fromBacking b = .ok r) : openedLayout M = .ok r.toLayout ∧
      Qcow2Reader.At cursor r.toLayout 0 r := by
  obtain ⟨b', hb', heq⟩ := fromBacking_eq S hb
  rw [heq] at h
  cases hl : openedLayout M with
  | error e => simp [hl, Except.map] at h
  | ok L =>
    simp only [hl, Except.map, Except.ok.injEq] at h
    subst h
    exact ⟨rfl, rfl, rfl, hb'⟩

theorem openedLayout_ok {L : Layout} (h : openedLayout M = .ok L) :
    ∃ hdr, Qcow2Header.parse (slice M.bytes 0 104) = .ok hdr ∧ hdr.l1Size ≤ 2 ^ 20 ∧
      (0 < hdr.l1Size → hdr.l1TableOffset + hdr.l1Size * 8 ≤ M.bytes.length) ∧
      L = Layout.ofHeader hdr (slice M.bytes hdr.l1TableOffset (hdr.l1Size * 8)) := by
  unfold openedLayout at h
  cases hp : Qcow2Header.parse (slice M.bytes 0 104) with
  | error e => simp [hp] at h
  | ok hdr =>
    simp only [hp] at h
    split at h
    · cases h
    · rename_i hsmall
      have hle : hdr.l1Size ≤ 2 ^ 20 := by
        have hmax : maxL1Entries = 2 ^ 20 := rfl
        omega
      cases hr : M.readExactAt hdr.l1TableOffset (hdr.l1Size * 8) with
      | error e => simp [hr, Except.map, Except.mapError] at h
      | ok bs =>
        have hbs : bs = slice M.bytes hdr.l1TableOffset (hdr.l1Size * 8) := by
          unfold Medium.readExactAt at hr
          split_ifs at hr
          simpa using hr.symm
        simp only [hr, Except.map, Except.mapError, Except.ok.injEq] at h
        refine ⟨hdr, rfl, hle, ?_, by rw [← h, hbs]⟩
        intro hpos
        exact ((M.readExactAt_eq_ok_iff (by omega)).mp hr).1

theorem openedLayout_fields {L : Layout} (h : openedLayout M = .ok L) :
    72 ≤ M.bytes.length ∧ beAt M.bytes 0 4 = magic ∧
      (beAt M.bytes 4 4 = 2 ∨ beAt M.bytes 4 4 = 3) ∧
      (9 ≤ beAt M.bytes 20 4 ∧ beAt M.bytes 20 4 ≤ 20) ∧ beAt M.bytes 36 4 ≤ 2 ^ 20 ∧
      (0 < beAt M.bytes 36 4 →
        beAt M.bytes 40 8 + beAt M.bytes 36 4 * 8 ≤ M.bytes.length) := by
  obtain ⟨hdr, hp, hle, hl1, -⟩ := openedLayout_ok h
  obtain ⟨hlen, hmagic, hversion, hbits, -, hl1Size, hl1Off⟩ := Qcow2Header.parse_window hp
  have hrange := hdr.clusterBits_range
  rw [hbits] at hrange
  rw [hl1Size] at hle hl1
  rw [hl1Off] at hl1
  exact ⟨hlen, hmagic, hversion, hrange, hle, hl1⟩

theorem openedLayout_mapped_lt {L : Layout} (h : openedLayout M = .ok L) :
    beAt M.bytes 36 4 * L.guestMap.slots * L.guestMap.clusterSize < 2 ^ 63 := by
  obtain ⟨-, -, -, -, hl1, -⟩ := openedLayout_fields h
  have hcs : L.guestMap.clusterSize ≤ 2 ^ 20 := by
    rw [L.guestMap_clusterSize]
    exact L.clusterSize_le
  have hslots : L.guestMap.slots ≤ 2 ^ 20 := (Nat.div_le_self _ _).trans hcs
  exact (Nat.mul_le_mul (Nat.mul_le_mul hl1 hslots) hcs).trans_lt (by norm_num)

theorem openedLayout_guestMap {L : Layout} (h : openedLayout M = .ok L) :
    L.guestMap = GuestMap.ofImage M.bytes := by
  obtain ⟨hdr, hp, -, hl1, rfl⟩ := openedLayout_ok h
  obtain ⟨-, -, -, hbits, hsize, hl1Size, hl1Off⟩ := Qcow2Header.parse_window hp
  simp only [Layout.guestMap, Layout.ofHeader, GuestMap.ofImage, hbits, hsize, GuestMap.mk.injEq,
    true_and]
  funext k
  by_cases hk : k < hdr.l1Size
  · have hin := hl1 (by omega)
    rw [beWords_slice hin, ← hl1Size, ← hl1Off, if_pos hk]
    simp [hk]
  · have hnone : (beWords (slice M.bytes hdr.l1TableOffset (hdr.l1Size * 8)))[k]? = none := by
      apply List.getElem?_eq_none
      have := length_slice_le M.bytes hdr.l1TableOffset (hdr.l1Size * 8)
      rw [length_beWords]
      omega
    rw [hnone, ← hl1Size, if_neg hk]

end Opening

end Qcow2
