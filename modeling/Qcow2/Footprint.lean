import Qcow2.Source

/-! The bytes of an image that its guest disk depends on: the header, the L1 table, and what
the lookup of each guest offset goes through. -/

namespace Qcow2

open StdIo

namespace GuestMap

/-- The lookup of guest offset `i` reads the byte at `x` of the image. -/
inductive LooksAt (g : GuestMap) (M : Medium) (i x : Nat) : Prop
  | entry (htable : g.l2Table i ≠ 0) (hle : g.l2Table i + i / g.clusterSize % g.slots * 8 ≤ x)
      (hlt : x < g.l2Table i + i / g.clusterSize % g.slots * 8 + 8)
  | host {o : Nat} (hcluster : g.cluster M i = .ok (.normal o)) (hx : x = o + i % g.clusterSize)
  | window {off n : Nat} (hcluster : g.cluster M i = .ok (.compressed off n)) (hle : off ≤ x)
      (hlt : x < off + n)

end GuestMap

/-- The byte at `x` has a part in the guest disk of the image. -/
inductive Referenced (image : List UInt8) (x : Nat) : Prop
  | header (hx : x < 104)
  | l1 (hle : beAt image 40 8 ≤ x) (hlt : x < beAt image 40 8 + beAt image 36 4 * 8)
  | guest {i : Nat} (hi : i < beAt image 24 8)
      (hx : (GuestMap.ofImage image).LooksAt (Medium.memory image) i x)

section Agreeing

variable {image image' : List UInt8}

theorem readExactAt_congr {off n : Nat}
    (h : ∀ x, off ≤ x → x < off + n → image[x]? = image'[x]?) :
    (Medium.memory image).readExactAt off n = (Medium.memory image').readExactAt off n := by
  unfold Medium.readExactAt
  rw [Medium.memory_bytes, Medium.memory_bytes, slice_congr h]
  rfl

theorem cluster_congr {g : GuestMap} {i : Nat}
    (h : ∀ x, g.LooksAt (Medium.memory image) i x → image[x]? = image'[x]?) :
    g.cluster (Medium.memory image) i = g.cluster (Medium.memory image') i := by
  unfold GuestMap.cluster
  by_cases htable : g.l2Table i = 0
  · rw [if_pos htable, if_pos htable]
  · rw [if_neg htable, if_neg htable,
      readExactAt_congr fun x hle hlt => h x (.entry htable hle hlt)]

theorem fetch_congr (inflate : Inflate) {g : GuestMap} {i : Nat}
    (h : ∀ x, g.LooksAt (Medium.memory image) i x → image[x]? = image'[x]?) :
    (g.disk (Medium.memory image) inflate).fetch i =
      (g.disk (Medium.memory image') inflate).fetch i := by
  have hcluster := cluster_congr h
  simp only [GuestMap.disk]
  rw [← hcluster]
  cases hc : g.cluster (Medium.memory image) i with
  | error e => rfl
  | ok c =>
    change GuestMap.fetchIn _ inflate c _ = GuestMap.fetchIn _ inflate c _
    cases c with
    | unallocated => rfl
    | zeroCluster => rfl
    | normal o =>
      simp only [GuestMap.fetchIn, Medium.memory_bytes, h _ (.host hc rfl)]
    | compressed off n =>
      have hwindow : slice image off n = slice image' off n :=
        slice_congr fun x hle hlt => h x (.window hc hle hlt)
      simp only [GuestMap.fetchIn, Medium.memory_bytes, hwindow]

theorem openedLayout_congr {L : Layout} (hopen : openedLayout (Medium.memory image) = .ok L)
    (h : ∀ x, Referenced image x → image[x]? = image'[x]?) :
    openedLayout (Medium.memory image') = .ok L := by
  have hwindow : slice image 0 104 = slice image' 0 104 :=
    slice_congr fun x _ hlt => h x (.header (by omega))
  unfold openedLayout at hopen ⊢
  rw [Medium.memory_bytes] at hopen ⊢
  rw [← hwindow]
  cases hp : Qcow2Header.parse (slice image 0 104) with
  | error e =>
    rw [hp] at hopen
    cases hopen
  | ok hdr =>
    obtain ⟨-, -, -, -, -, hl1Size, hl1Off⟩ := Qcow2Header.parse_window hp
    have htable : (Medium.memory image).readExactAt hdr.l1TableOffset (hdr.l1Size * 8) =
        (Medium.memory image').readExactAt hdr.l1TableOffset (hdr.l1Size * 8) :=
      readExactAt_congr fun x hle hlt => h x (.l1 (by omega) (by omega))
    rw [hp] at hopen
    simpa only [htable] using hopen

end Agreeing

theorem Qcow2Source.readAtOf_congr {d d' : FlatDisk IoError UInt8} (hsize : d.size = d'.size)
    (hfetch : ∀ i, i < d.size → d.fetch i = d'.fetch i) (offset : Nat) (buf : List UInt8) :
    readAtOf d offset buf = readAtOf d' offset buf := by
  unfold readAtOf
  rw [FlatDisk.stream_congr hsize hfetch, hsize]

/-- Two images that agree on the bytes the first refers to are the same disk: the second opens
too, with the same tables, and answers every history of calls alike. What else an image holds
never shows. -/
theorem unreferenced_bytes_never_show {κ : Type} (inflate : Inflate) {image image' : List UInt8}
    {r₀ : Qcow2Reader Cursor} (hopen : fromBacking (Cursor.mk image 0) = .ok r₀)
    (h : ∀ x, Referenced image x → image[x]? = image'[x]?) :
    ∃ r₀', fromBacking (Cursor.mk image' 0) = .ok r₀' ∧ r₀'.toLayout = r₀.toLayout ∧
      (∀ i, i < r₀.virtualDiskSize → guestByte inflate image' i = guestByte inflate image i) ∧
      ∀ cs : List (ReadAtCall κ), ((Qcow2Source.serve inflate).run cs (.new r₀')).1 =
        ((Qcow2Source.serve inflate).run cs (.new r₀)).1 := by
  have S := serves_cursor image
  have S' := serves_cursor image'
  obtain ⟨hl, hat⟩ := fromBacking_at S (Cursor.on_start image) hopen
  have hl' := openedLayout_congr hl h
  obtain ⟨f, -, heq⟩ := fromBacking_eq S' (Cursor.on_start image')
  rw [hl'] at heq
  have hat' := (fromBacking_at S' (Cursor.on_start image') heq).2
  have hmap : r₀.guestMap = GuestMap.ofImage image := (opened_image hopen).2.1
  have hmap' : r₀.guestMap = GuestMap.ofImage image' := (opened_image heq).2.1
  have hsize : r₀.virtualDiskSize = beAt image 24 8 := (opened_image hopen).2.2
  have hfetch : ∀ i, i < r₀.virtualDiskSize →
      (r₀.guestMap.disk (Medium.memory image) inflate).fetch i =
        (r₀.guestMap.disk (Medium.memory image') inflate).fetch i := by
    intro i hi
    rw [hmap]
    exact fetch_congr inflate fun x hx => h x (.guest (by omega) hx)
  refine ⟨_, heq, rfl, ?_, ?_⟩
  · intro i hi
    rw [← disk_get?_ofImage, ← disk_get?_ofImage, ← hmap, ← hmap', FlatDisk.get?, FlatDisk.get?,
      hfetch i hi]
  · intro cs
    rw [(Qcow2Source.serve_run inflate S' (Qcow2Source.new_standing hat') cs).1,
      (Qcow2Source.serve_run inflate S (Qcow2Source.new_standing hat) cs).1]
    have hsame : (r₀.guestMap.disk (Medium.memory image) inflate).size =
      (r₀.guestMap.disk (Medium.memory image') inflate).size := rfl
    exact List.map_congr_left fun c _ =>
      (Qcow2Source.readAtOf_congr hsame hfetch c.offset c.buf).symm

theorem evidenceImage_cluster {i : Nat} (hi : i < 2048) {r : ClusterRef}
    (hr : (GuestMap.ofImage (evidenceImage 0)).cluster (Medium.memory (evidenceImage 0)) i = .ok r) :
    r ∈ [.normal 2560, .compressed 3072 512, .zeroCluster, .normal 3584] := by
  obtain ⟨g, hg⟩ : ∃ g, g = GuestMap.ofImage (evidenceImage 0) := ⟨_, rfl⟩
  have hsize : g.clusterSize = 512 := hg ▸ by decide +kernel
  have hsame : g.cluster (Medium.memory (evidenceImage 0)) (512 * (i / 512)) = .ok r := by
    have hstart : 512 * (i / 512) % g.clusterSize + i % 512 < g.clusterSize := by
      rw [hsize]
      omega
    have hadd := (@GuestMap.cluster_add g (Medium.memory (evidenceImage 0)) _ _ hstart).1
    rw [Nat.div_add_mod] at hadd
    rw [← hadd, hg, hr]
  have hall : (List.range 4).map (fun k =>
      (g.cluster (Medium.memory (evidenceImage 0)) (512 * k)).toOption) =
        [.normal 2560, .compressed 3072 512, .zeroCluster, .normal 3584].map some := by
    rw [hg]
    decide +kernel
  have hmem : some r ∈ [.normal 2560, .compressed 3072 512, .zeroCluster, .normal 3584].map some := by
    rw [← hall, List.mem_map]
    exact ⟨i / 512, List.mem_range.mpr (by omega), by rw [hsame]; rfl⟩
  exact List.mem_map_of_injective (Option.some_injective _) |>.mp hmem

/-- Nothing refers to the bytes between the header and the L1 table. -/
theorem evidenceImage_referenced {x : Nat} (h : Referenced (evidenceImage 0) x) :
    x < 104 ∨ 512 ≤ x := by
  cases h with
  | header hx => exact .inl hx
  | l1 hle hlt =>
    have hoff : beAt (evidenceImage 0) 40 8 = 512 := by decide +kernel
    omega
  | @guest i hi hx =>
    have hsize : beAt (evidenceImage 0) 24 8 = 2048 := by decide +kernel
    rw [hsize] at hi
    cases hx with
    | entry hne hle hlt =>
      have hcs : (GuestMap.ofImage (evidenceImage 0)).clusterSize = 512 := by decide +kernel
      have hslots : (GuestMap.ofImage (evidenceImage 0)).slots = 64 := by decide +kernel
      have hfirst : (GuestMap.ofImage (evidenceImage 0)).l2Table i =
          (GuestMap.ofImage (evidenceImage 0)).l2Table 0 := by
        rw [GuestMap.l2Table, GuestMap.l2Table, hcs, hslots, Nat.zero_div,
          show i / 512 / 64 = 0 by omega]
      have htable : (GuestMap.ofImage (evidenceImage 0)).l2Table 0 = 1024 := by decide +kernel
      omega
    | @host o hcluster hx =>
      have hmem := evidenceImage_cluster hi hcluster
      simp only [List.mem_cons, ClusterRef.normal.injEq, reduceCtorEq, false_or, or_false,
        List.not_mem_nil] at hmem
      omega
    | @window off n hcluster hle hlt =>
      have hmem := evidenceImage_cluster hi hcluster
      simp only [List.mem_cons, ClusterRef.compressed.injEq, reduceCtorEq, false_or, or_false,
        List.not_mem_nil] at hmem
      omega

theorem unreferenced_bytes_never_show_sample : ∃ r₀ r₀',
    fromBacking (Cursor.mk (evidenceImage 0) 0) = .ok r₀ ∧
    fromBacking (Cursor.mk (evidenceImage 7) 0) = .ok r₀' ∧ r₀'.l1Table = [1024] ∧
    (evidenceImage 0)[104]? ≠ (evidenceImage 7)[104]? ∧
    guestByte .ok (evidenceImage 7) 512 = some 0x42 ∧
    ∀ cs : List (ReadAtCall Bool), ((Qcow2Source.serve .ok).run cs (.new r₀')).1 =
      ((Qcow2Source.serve .ok).run cs (.new r₀)).1 := by
  obtain ⟨r₀, hopen, hl1⟩ := exists_ok_map (x := fromBacking (Cursor.mk (evidenceImage 0) 0))
    (f := fun r => r.l1Table) (b := [1024]) (by decide +kernel)
  have hsame : ∀ x, x < 104 ∨ 512 ≤ x → (evidenceImage 0)[x]? = (evidenceImage 7)[x]? := by
    have hhead : slice (evidenceImage 0) 0 104 = slice (evidenceImage 7) 0 104 := by decide +kernel
    have htail : (evidenceImage 0).drop 512 = (evidenceImage 7).drop 512 := by decide +kernel
    intro x hx
    rcases hx with hx | hx
    · rw [← Nat.zero_add x, ← getElem?_slice hx, hhead, getElem?_slice hx]
    · obtain ⟨k, rfl⟩ := Nat.exists_eq_add_of_le hx
      rw [← List.getElem?_drop, htail, List.getElem?_drop]
  obtain ⟨r₀', hopen', hlayout, hbytes, hanswers⟩ := unreferenced_bytes_never_show (κ := Bool) .ok
    hopen fun x hx => hsame x (evidenceImage_referenced hx)
  have hl1' : r₀'.l1Table = [1024] := hl1 ▸ congrArg Layout.l1Table hlayout
  exact ⟨r₀, r₀', hopen, hopen', hl1', by decide +kernel, by decide +kernel, hanswers⟩

end Qcow2
