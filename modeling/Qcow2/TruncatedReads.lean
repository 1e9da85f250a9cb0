import Qcow2.Source

/-! Reading an image whose end is missing: what is still returned are the guest bytes of
the whole image. -/

namespace Qcow2

open StdIo

/-- The guest byte at `i` lies in a compressed cluster whose window the source does not wholly
hold. -/
def WindowCut (g : GuestMap) (M : Medium) (i : Nat) : Prop :=
  ∃ off n, g.cluster M i = .ok (.compressed off n) ∧ M.bytes.length < off + n

section Maps

variable {M M' : Medium}

theorem GuestMap.cluster_of_isPrefix (hcut : M'.bytes <+: M.bytes) (g : GuestMap) {i : Nat}
    {c : ClusterRef} (h : g.cluster M' i = .ok c) : g.cluster M i = .ok c := by
  unfold cluster at h ⊢
  by_cases htable : g.l2Table i = 0
  · rwa [if_pos htable] at h ⊢
  · rw [if_neg htable] at h ⊢
    cases hr : M'.readExactAt (g.l2Table i + i / g.clusterSize % g.slots * 8) 8 with
    | error e =>
      rw [hr] at h
      cases h
    | ok bs =>
      rw [Medium.readExactAt_of_isPrefix hcut (by decide) hr]
      rwa [hr] at h

theorem GuestMap.fetchIn_of_isPrefix (hcut : M'.bytes <+: M.bytes) (inflate : Inflate)
    {c : ClusterRef} {j : Nat} {b : UInt8}
    (hin : ∀ off n, c = .compressed off n → off + n ≤ M'.bytes.length)
    (h : fetchIn M' inflate c j = .ok (some b)) : fetchIn M inflate c j = .ok (some b) := by
  cases c with
  | unallocated => exact h
  | zeroCluster => exact h
  | normal o =>
    have hhost : M'.bytes[o + j]? = some b := by simpa only [fetchIn, Except.ok.injEq] using h
    obtain ⟨hlt, hbyte⟩ := List.getElem?_eq_some_iff.mp hhost
    have hwhole : M.bytes[o + j]? = some b :=
      List.getElem?_eq_some_iff.mpr ⟨hlt.trans_le hcut.length_le, (hcut.getElem hlt).symm.trans hbyte⟩
    simp only [fetchIn, hwhole]
  | compressed off n =>
    simpa only [fetchIn, slice_of_isPrefix hcut (hin off n rfl)] using h

theorem GuestMap.fetch_of_isPrefix (hcut : M'.bytes <+: M.bytes) (inflate : Inflate) (g : GuestMap)
    {i : Nat} {b : UInt8} (hkept : ¬ WindowCut g M' i)
    (h : (g.disk M' inflate).fetch i = .ok (some b)) :
    (g.disk M inflate).fetch i = .ok (some b) := by
  simp only [disk] at h ⊢
  cases hc : g.cluster M' i with
  | error e =>
    rw [hc] at h
    cases h
  | ok c =>
    rw [hc] at h
    rw [g.cluster_of_isPrefix hcut hc]
    apply fetchIn_of_isPrefix hcut inflate _ h
    rintro off n rfl
    by_contra hout
    exact hkept ⟨off, n, hc, by omega⟩

/-- The tables an opened image needs are in it, so what lies behind them does not matter. -/
theorem ofImage_of_isPrefix (hcut : M'.bytes <+: M.bytes) {L : Layout}
    (h : openedLayout M' = .ok L) : GuestMap.ofImage M'.bytes = GuestMap.ofImage M.bytes := by
  obtain ⟨hlen, -, -, -, -, hl1⟩ := openedLayout_fields h
  have hfield : ∀ {off n : Nat}, off + n ≤ 72 → beAt M'.bytes off n = beAt M.bytes off n :=
    fun ho => beAt_of_isPrefix hcut (by omega)
  have hsize : beAt M'.bytes 36 4 = beAt M.bytes 36 4 := hfield (by omega)
  have hoff : beAt M'.bytes 40 8 = beAt M.bytes 40 8 := hfield (by omega)
  rw [GuestMap.ofImage, GuestMap.ofImage, hfield (show 20 + 4 ≤ 72 by omega),
    hfield (show 24 + 8 ≤ 72 by omega), hsize, hoff]
  congr 1
  funext k
  by_cases hk : k < beAt M.bytes 36 4
  · have htable := hl1 (by omega)
    rw [if_pos hk, if_pos hk, beAt_of_isPrefix hcut (by omega)]
  · rw [if_neg hk, if_neg hk]

end Maps

theorem guestByte_of_fetch {M : Medium} {inflate : Inflate} {i : Nat} {b : UInt8}
    (h : ((GuestMap.ofImage M.bytes).disk M inflate).fetch i = .ok (some b)) :
    guestByte inflate M.bytes i = some b := by
  have hget := FlatDisk.get?_eq_some_iff.mpr h
  rw [GuestMap.disk_get?] at hget
  rw [← disk_get?_ofImage, GuestMap.disk_get?]
  exact hget

theorem Qcow2Source.readAtOf_ok {d : FlatDisk IoError UInt8} {offset n : Nat} {buf out : List UInt8}
    (h : readAtOf d offset buf = .ok (n, out)) : n ≤ buf.length ∧
      ∀ k, k < n → ∃ b, out[k]? = some b ∧ d.fetch (offset + k) = .ok (some b) := by
  unfold readAtOf at h
  split_ifs at h with hend hfar
  · cases h
    exact ⟨Nat.zero_le _, fun k hk => absurd hk (Nat.not_lt_zero k)⟩
  · have hlen := FlatDisk.length_stream_le (d := d) (min buf.length (d.size - offset)) offset
    have hfetch := fun k b => FlatDisk.fetch_of_stream (d := d)
      (n := min buf.length (d.size - offset)) (p := offset) (k := k) (b := b)
    generalize d.stream (min buf.length (d.size - offset)) offset = stream at h hlen hfetch
    obtain ⟨bs, _ | e⟩ := stream
    · cases h
      refine ⟨hlen.trans (Nat.min_le_left _ _), fun k hk => ⟨bs[k], ?_, ?_⟩⟩
      · rw [overwrite_zero, List.getElem?_append_left hk, List.getElem?_eq_getElem hk]
      · exact (hfetch k bs[k] (List.getElem?_eq_getElem hk)).2
    · cases h

/-- `out` holds the guest bytes of the whole image from `p` on, `n` of them, wherever the
truncated source still has the window they are inflated from. -/
def TrueBytes (inflate : Inflate) (M M' : Medium) (p n : Nat) (out : List UInt8) : Prop :=
  ∀ k, k < n → ¬ WindowCut (GuestMap.ofImage M'.bytes) M' (p + k) →
    out[k]? = guestByte inflate M.bytes (p + k)

section Reads

variable {β : Type} [ReadSeek β] {M M' : Medium} {cursor : β → Nat → Prop} {L : Layout}

theorem trueBytes_of_fetch (hcut : M'.bytes <+: M.bytes) (inflate : Inflate)
    (hopen : openedLayout M' = .ok L) {p n : Nat} {out : List UInt8}
    (h : ∀ k, k < n → ∃ b, out[k]? = some b ∧
      (L.guestMap.disk M' inflate).fetch (p + k) = .ok (some b)) :
    TrueBytes inflate M M' p n out := by
  intro k hk hkept
  obtain ⟨b, hout, hfetch⟩ := h k hk
  rw [openedLayout_guestMap hopen] at hfetch
  have hwhole := GuestMap.fetch_of_isPrefix hcut inflate _ hkept hfetch
  rw [ofImage_of_isPrefix hcut hopen] at hwhole
  rw [hout, guestByte_of_fetch hwhole]

theorem Qcow2Reader.read_trueBytes (S : Serves M' cursor) (hcut : M'.bytes <+: M.bytes)
    (inflate : Inflate) (hopen : openedLayout M' = .ok L) {p : Nat} {r t : Qcow2Reader β}
    (hr : At cursor L p r) {buf out : List UInt8} {n : Nat}
    (hrun : (read inflate buf).run r = .ok (n, out) t) :
    n ≤ buf.length ∧ TrueBytes inflate M M' p n out := by
  obtain ⟨o, r', hrun', hreads, -⟩ := read_run inflate S hr buf
  rw [hrun'] at hrun
  cases o with
  | error e => cases hrun
  | ok bs =>
    cases hrun
    obtain ⟨hle, -, hfetch⟩ := hreads.ok_bounds
    refine ⟨hle, trueBytes_of_fetch hcut inflate hopen fun k hk => ⟨bs[k], ?_, ?_⟩⟩
    · rw [List.getElem?_append_left hk, List.getElem?_eq_getElem hk]
    · exact hfetch k bs[k] (List.getElem?_eq_getElem hk)

end Reads

/-- After any history, on any two sources that hold an image and its beginning: what a read of
the truncated one returns are bytes of the whole, never others in their place. -/
theorem truncated_reads_true {β β' κ : Type} [ReadSeek β] [ReadSeek β'] {M M' : Medium}
    {cursor : β → Nat → Prop} {cursor' : β' → Nat → Prop} (inflate : Inflate) (S : Serves M cursor)
    (S' : Serves M' cursor') (hcut : M'.bytes <+: M.bytes) {b : β} {b' : β'} (hb : cursor b 0)
    (hb' : cursor' b' 0) {r₀ : Qcow2Reader β} {r₀' : Qcow2Reader β'} (h : fromBacking b = .ok r₀)
    (h' : fromBacking b' = .ok r₀') :
    r₀'.virtualDiskSize = r₀.virtualDiskSize ∧
      (∀ (cs : List Call) (buf out : List UInt8) (n : Nat) (t : Qcow2Reader β'),
        (Qcow2Reader.read inflate buf).run ((Qcow2Reader.call inflate).run cs r₀').2 =
          .ok (n, out) t →
        n ≤ buf.length ∧
          TrueBytes inflate M M' ((Qcow2Reader.call inflate).run cs r₀').2.pos n out) ∧
      ∀ (cs : List (ReadAtCall κ)) (c : ReadAtCall κ) (n : Nat) (out : List UInt8),
        (Qcow2Source.serve inflate c ((Qcow2Source.serve inflate).run cs (.new r₀')).2).1 =
          .ok (n, out) →
        n ≤ c.buf.length ∧ TrueBytes inflate M M' c.offset n out := by
  obtain ⟨hopen, -⟩ := fromBacking_at S hb h
  obtain ⟨hopen', hat⟩ := fromBacking_at S' hb' h'
  refine ⟨?_, ?_, ?_⟩
  · have hmap := (openedLayout_guestMap hopen').trans ((ofImage_of_isPrefix hcut hopen').trans
      (openedLayout_guestMap hopen).symm)
    exact congrArg GuestMap.size hmap
  · intro cs buf out n t hrun
    obtain ⟨p, hp⟩ := Qcow2Reader.call_run_at inflate S' hat cs
    rw [hp.2.1]
    exact Qcow2Reader.read_trueBytes S' hcut inflate hopen' hp hrun
  · intro cs c n out hanswer
    have hs := (Qcow2Source.serve_run inflate S' (Qcow2Source.new_standing hat) cs).2
    rw [(Qcow2Source.serve_answer inflate S' hs c).1] at hanswer
    obtain ⟨hle, hfetch⟩ := Qcow2Source.readAtOf_ok hanswer
    exact ⟨hle, trueBytes_of_fetch hcut inflate hopen' hfetch⟩

/-- With the last two of its data bytes missing, an image is read up to them. -/
theorem truncated_reads_true_sample : ∃ r₀ r₀',
    fromBacking (Cursor.mk sampleImage 0) = .ok r₀ ∧
    fromBacking (Cursor.mk (sampleImage.take 90) 0) = .ok r₀' ∧
    (Qcow2Source.serve .ok (⟨true, 0, [9, 9, 9, 9]⟩ : ReadAtCall Bool) (.new r₀')).1 =
      .ok (2, [1, 2, 9, 9]) ∧
    TrueBytes .ok (Medium.memory sampleImage) (Medium.memory (sampleImage.take 90)) 0 2
      [1, 2, 9, 9] := by
  obtain ⟨r₀, h⟩ := exists_ok (x := fromBacking (Cursor.mk sampleImage 0)) (by decide)
  obtain ⟨r₀', h', hread⟩ := exists_ok_map (f := fun r =>
      (Qcow2Source.serve .ok (⟨true, 0, [9, 9, 9, 9]⟩ : ReadAtCall Bool) (.new r)).1.toOption)
    (x := fromBacking (Cursor.mk (sampleImage.take 90) 0)) (b := some (2, [1, 2, 9, 9]))
    (by decide +kernel)
  have hanswer : (Qcow2Source.serve .ok (⟨true, 0, [9, 9, 9, 9]⟩ : ReadAtCall Bool)
      (.new r₀')).1 = .ok (2, [1, 2, 9, 9]) := by
    cases ho : (Qcow2Source.serve .ok (⟨true, 0, [9, 9, 9, 9]⟩ : ReadAtCall Bool) (.new r₀')).1 with
    | error e =>
      rw [ho] at hread
      cases hread
    | ok x =>
      rw [ho] at hread
      exact congrArg Except.ok (Option.some.inj hread)
  have htrue := (truncated_reads_true (κ := Bool) .ok (serves_cursor sampleImage)
    (serves_cursor (sampleImage.take 90)) (List.take_prefix 90 sampleImage)
    (Cursor.on_start sampleImage) (Cursor.on_start (sampleImage.take 90)) h h').2.2
  exact ⟨r₀, r₀', h, h', hanswer, (htrue [] ⟨true, 0, [9, 9, 9, 9]⟩ 2 [1, 2, 9, 9] hanswer).2⟩

end Qcow2
