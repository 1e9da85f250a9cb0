import Qcow2.Checked
import Qcow2.ReaderRefines

/-! No check of the checked programs fails, so they end as the unchecked ones do. -/

namespace Qcow2

open StdIo

def Kept {β : Type} (r t : Qcow2Reader β) : Prop := t.toLayout = r.toLayout ∧ t.pos = r.pos

theorem Kept.trans {β : Type} {r s t : Qcow2Reader β} (h : Kept r s) (h' : Kept s t) : Kept r t :=
  ⟨h'.1.trans h.1, h'.2.trans h.2⟩

def ClusterRef.InRange : ClusterRef → Prop
  | .normal o => o < 2 ^ 62
  | .compressed _ n => n < 2 ^ 64
  | _ => True

namespace Qcow2Reader

variable {β : Type} [ReadSeek β] (inflate : Inflate)

theorem refOfEntry_inRange (clusterSize e : Nat) : (refOfEntry clusterSize e).InRange := by
  have hmask : e &&& 0x3FFFFFFFFFFFFFFF = e % 2 ^ 62 := land_low e 62
  unfold refOfEntry
  split
  · exact Nat.mod_lt _ (by positivity)
  · split
    · trivial
    · dsimp only
      split
      · trivial
      · exact hmask.trans_lt (Nat.mod_lt _ (by positivity))

omit [ReadSeek β] in
theorem onBacking_ends {α : Type} (x : EStateM IoError β α) :
    Ends (onBacking x) fun r a t => Kept r t ∧ ∃ b b', x.run b = .ok a b' := by
  intro r a t hrun
  cases hx : x.run r.backing with
  | ok a' b' =>
    rw [onBacking, run_zoom_ok hx] at hrun
    cases hrun
    exact ⟨⟨rfl, rfl⟩, r.backing, b', hx⟩
  | error e b' =>
    rw [onBacking, run_zoom_error hx] at hrun
    cases hrun

theorem clusterRefFor_ends (v : Nat) :
    Ends (clusterRefFor v : EStateM IoError (Qcow2Reader β) ClusterRef)
      fun r c t => Kept r t ∧ c.InRange := by
  apply Ends.get_bind
  intro r c t hrun
  dsimp only at hrun
  split_ifs at hrun with hzero
  · cases hrun
    exact ⟨⟨rfl, rfl⟩, trivial⟩
  · exact (onBacking_ends _).map (R := fun r c t => Kept r t ∧ c.InRange)
      (fun s bs u hu => ⟨hu.1, refOfEntry_inRange _ _⟩) r c t hrun

theorem decompressCluster_ends (off n : Nat) :
    Ends (decompressCluster inflate off n : EStateM IoError (Qcow2Reader β) (List UInt8))
      fun r out t => Kept r t ∧ asUsize r.clusterSize ≤ out.length := by
  apply Ends.get_bind
  intro r out t hrun
  refine Ends.bind (R := fun s out t => Kept s t ∧ asUsize r.clusterSize ≤ out.length)
    (onBacking_ends (fillAt off n)) (Q := fun _ s out t => s = t ∧
      asUsize r.clusterSize ≤ out.length) ?_ ?_ r out t hrun
  · intro raw s out t hrest
    rw [EStateM.run_bind, run_fromResult] at hrest
    cases hinf : (inflate raw).mapError deflateError with
    | error e =>
      rw [hinf] at hrest
      cases hrest
    | ok inflated =>
      rw [hinf] at hrest
      cases hrest
      exact ⟨rfl, by rw [length_padTo]; exact Nat.le_max_left _ _⟩
  · intro s raw u out t hu hout
    obtain ⟨rfl, hlen⟩ := hout
    exact ⟨hu.1, hlen⟩

theorem readCluster_ends (hread : ReadsWithin β) (j m : Nat) (c : ClusterRef) :
    Ends (readCluster inflate j m c : EStateM IoError (Qcow2Reader β) (List UInt8))
      fun r bytes t => Kept r t ∧ bytes.length ≤ m := by
  cases c with
  | unallocated => exact Ends.pure fun _ => ⟨⟨rfl, rfl⟩, List.length_replicate.le⟩
  | zeroCluster => exact Ends.pure fun _ => ⟨⟨rfl, rfl⟩, List.length_replicate.le⟩
  | normal o =>
    refine Ends.bind (onBacking_ends _) (fun _ => onBacking_ends _) ?_
    intro s q u bytes t hu hbytes
    obtain ⟨hkept, b, b', hrun⟩ := hbytes
    exact ⟨hu.1.trans hkept, hread m b b' bytes hrun⟩
  | compressed off n =>
    exact (decompressCluster_ends inflate off n).map fun s out t hout =>
      ⟨hout.1, length_slice_le _ _ _⟩

end Qcow2Reader

namespace Checked

variable {β : Type} [ReadSeek β] (inflate : Inflate)

omit [ReadSeek β] in
theorem refOfEntry_agrees (L : Layout) (e : Nat) (r : Qcow2Reader β) :
    Agrees (refOfEntry L.clusterSize e) (pure (Qcow2Reader.refOfEntry L.clusterSize e)) r := by
  obtain ⟨hlow, hhigh⟩ := L.clusterBits_range
  have hpow : 2 ^ (L.clusterBits - 1) ≤ 2 ^ 19 := Nat.pow_le_pow_right (by omega) (by omega)
  have hcount : e >>> (63 - L.clusterBits) &&& (2 ^ (L.clusterBits - 1) - 1) ≤
      2 ^ (L.clusterBits - 1) - 1 := Nat.and_le_right
  unfold refOfEntry Qcow2Reader.refOfEntry
  simp only [L.trailingZeros_clusterSize, Nat.one_shiftLeft]
  split_ifs
  · rw [subIn_of_le (by omega), pure_bind, subIn_of_le (by omega), pure_bind,
      shlIn_one (by omega), pure_bind, subIn_of_le Nat.one_le_two_pow, pure_bind,
      shlIn_one (by omega), pure_bind, subIn_of_le Nat.one_le_two_pow, pure_bind,
      shrIn_of_lt (by omega), pure_bind, addIn_of_lt (by omega), pure_bind,
      mulIn_of_lt (by omega), pure_bind]
    exact Agrees.pure _ _
  all_goals exact Agrees.pure _ _

theorem clusterRefFor_agrees (v : Nat) (r : Qcow2Reader β) :
    Agrees (clusterRefFor v) (Qcow2Reader.clusterRefFor v) r := by
  obtain ⟨hlow, hhigh⟩ := r.clusterBits_range
  have hpow : 2 ^ (r.clusterBits - 3) ≤ 2 ^ 17 := Nat.pow_le_pow_right (by omega) (by omega)
  apply Agrees.get_bind
  rw [shrIn_of_lt (by rw [r.trailingZeros_clusterSize]; omega), pure_bind,
    shrIn_of_lt (by rw [r.l2Bits_eq]; omega), pure_bind]
  dsimp only
  obtain ⟨l2Idx, hidx⟩ : ∃ l2Idx,
      l2Idx = v >>> trailingZeros r.clusterSize &&& r.l2Mask := ⟨_, rfl⟩
  obtain ⟨l1Entry, hentry⟩ : ∃ l1Entry, l1Entry =
      (r.l1Table[asUsize (v >>> trailingZeros r.clusterSize >>> r.l2Bits)]?).getD 0 := ⟨_, rfl⟩
  have hle : l2Idx ≤ 2 ^ 17 := by
    have hmask : l2Idx ≤ r.l2Mask := hidx ▸ Nat.and_le_right
    rw [r.l2Mask_eq] at hmask
    omega
  have hlt : l1Entry &&& 0x7FFFFFFFFFFFFFFF < 2 ^ 63 := by
    have hmask : l1Entry &&& 0x7FFFFFFFFFFFFFFF = l1Entry % 2 ^ 63 := land_low l1Entry 63
    exact hmask.trans_lt (Nat.mod_lt _ (by positivity))
  rw [← hidx, ← hentry]
  refine Agrees.ite (fun _ => Agrees.pure _ _) fun _ => ?_
  rw [mulIn_of_lt (by omega), pure_bind, addIn_of_lt (by omega), pure_bind]
  exact Agrees.bind (Agrees.embed _ _) fun bs t _ => refOfEntry_agrees r.toLayout (beNat bs) t

theorem fill_agrees (hread : ReadsWithin β) {n : Nat} (hn : n < 2 ^ 64) (b : β) :
    Agrees (fillInto n (List.replicate n 0) 0)
      (do let bs ← fill n
          return (overwrite (List.replicate n 0) 0 bs, bs.length)) b := by
  have hlen : (List.replicate n (0 : UInt8)).length < 2 ^ 64 := by simpa using hn
  have hfill := fillInto_agrees hread n hlen (Nat.zero_le _) b
  rw [fill]
  simpa only [List.length_replicate, Nat.sub_zero, Nat.zero_add] using hfill

theorem filled_window {ε σ : Type} {n : Nat} {bs : List UInt8} (h : bs.length ≤ n) :
    (sliceIn (overwrite (List.replicate n 0) 0 bs) 0 bs.length :
      EStateM (Trap ε) σ (List UInt8)) = pure bs := by
  have hlen : (overwrite (List.replicate n 0) 0 bs).length = n := by
    rw [length_overwrite (by simpa using h), List.length_replicate]
  rw [sliceIn_of_le (Nat.zero_le _) (by omega), overwrite_zero, Nat.sub_zero, slice_length_append]

theorem decompressCluster_agrees (hread : ReadsWithin β) (off : Nat) {n : Nat} (hn : n < 2 ^ 64)
    (r : Qcow2Reader β) :
    Agrees (decompressCluster inflate off n) (Qcow2Reader.decompressCluster inflate off n) r := by
  apply Agrees.get_bind
  have hfill : ∀ b, Agrees (do
      let _ ← embed (ReadSeek.seek (.start off))
      fillInto n (List.replicate n 0) 0 : EStateM (Trap IoError) β (List UInt8 × Nat))
      (do let bs ← fillAt off n
          return (overwrite (List.replicate n 0) 0 bs, bs.length)) b := by
    intro b
    rw [fillAt, bind_assoc]
    exact Agrees.bind (Agrees.embed _ _) fun _ t _ => fill_agrees hread hn t
  have hzoom := Agrees.zoom (fun b (r : Qcow2Reader β) => { r with backing := b }) (hfill r.backing)
  rw [zoom_map] at hzoom
  refine Agrees.bind_map hzoom ?_
  intro raw t hrun
  obtain ⟨-, b, b', hfilled⟩ := Qcow2Reader.onBacking_ends _ r raw t hrun
  have hraw : raw.length ≤ n := fillAt_ends hread off n b raw b' hfilled
  dsimp only
  rw [filled_window hraw, pure_bind]
  exact Agrees.bind (Agrees.embed _ _) fun out t _ => Agrees.pure _ _

theorem readCluster_agrees (hread : ReadsWithin β) {buf : List UInt8} {j m : Nat} {c : ClusterRef}
    (hc : c.InRange) (hm : m ≤ buf.length) {r : Qcow2Reader β} (hj : j + m ≤ r.clusterSize) :
    Agrees (readCluster inflate buf j m c)
      (do let bytes ← Qcow2Reader.readCluster inflate j m c
          return (bytes.length, overwrite buf 0 bytes)) r := by
  have hle := r.clusterSize_le
  have hdst : (slice buf 0 m).length = m := length_slice_of_le (by omega)
  cases c with
  | unallocated =>
    simp only [readCluster, Qcow2Reader.readCluster, pure_bind]
    rw [sliceIn_of_le (Nat.zero_le _) hm, pure_bind, Nat.sub_zero, hdst, List.length_replicate]
    exact Agrees.pure _ _
  | zeroCluster =>
    simp only [readCluster, Qcow2Reader.readCluster, pure_bind]
    rw [sliceIn_of_le (Nat.zero_le _) hm, pure_bind, Nat.sub_zero, hdst, List.length_replicate]
    exact Agrees.pure _ _
  | normal o =>
    have ho : o < 2 ^ 62 := hc
    simp only [readCluster, Qcow2Reader.readCluster, bind_assoc]
    rw [addIn_of_lt (by omega), pure_bind]
    refine Agrees.bind (Agrees.embed _ _) fun _ s _ => ?_
    rw [sliceIn_of_le (Nat.zero_le _) hm, pure_bind, Nat.sub_zero, hdst]
    exact Agrees.bind (Agrees.embed _ _) fun bytes t _ => Agrees.pure _ _
  | compressed off n =>
    simp only [readCluster, Qcow2Reader.readCluster, bind_assoc, pure_bind]
    refine Agrees.bind (decompressCluster_agrees inflate hread off hc r) fun out t hrun => ?_
    have hout := (Qcow2Reader.decompressCluster_ends inflate off n r out t hrun).2
    rw [asUsize_of_lt (by omega)] at hout
    have hsrc : (slice out j m).length = m := length_slice_of_le (by omega)
    rw [addIn_of_lt (by omega), pure_bind, sliceIn_of_le (by omega) (by omega), pure_bind,
      sliceIn_of_le (Nat.zero_le _) hm, pure_bind, Nat.sub_zero, Nat.add_sub_cancel_left, hdst,
      hsrc, check_of rfl, pure_bind]
    exact Agrees.pure _ _

theorem read_agrees (hread : ReadsWithin β) (buf : List UInt8) {r : Qcow2Reader β}
    (hpos : r.pos < 2 ^ 64) : Agrees (read inflate buf) (Qcow2Reader.read inflate buf) r := by
  have hdisk := r.virtualDiskSize_lt
  have hle := r.clusterSize_le
  have hcs : asUsize r.clusterSize = r.clusterSize := asUsize_of_lt (by omega)
  have hlt : r.pos % r.clusterSize < r.clusterSize := Nat.mod_lt _ r.clusterSize_pos
  have hoffset := Qcow2Reader.offsetInCluster_eq (t := target64) (by decide) r.toLayout r.pos
  rw [r.guestMap_clusterSize] at hoffset
  unfold Qcow2Reader.read Qcow2Reader.readBytes
  rw [bind_assoc]
  apply Agrees.get_bind
  by_cases hend : r.virtualDiskSize ≤ r.pos ∨ buf.length = 0
  · rw [if_pos hend, if_pos hend, pure_bind]
    exact Agrees.pure _ _
  · have hvirtual : asUsize (r.virtualDiskSize - r.pos) = r.virtualDiskSize - r.pos :=
      asUsize_of_lt (by omega)
    rw [if_neg hend, if_neg hend, subIn_of_le (by omega), pure_bind, subIn_of_le r.clusterSize_pos,
      pure_bind, hoffset, hcs]
    dsimp only
    rw [subIn_of_le hlt.le, pure_bind, hvirtual]
    obtain ⟨m, hm⟩ : ∃ m, m = min (min buf.length (r.virtualDiskSize - r.pos))
      (r.clusterSize - r.pos % r.clusterSize) := ⟨_, rfl⟩
    rw [← hm, bind_assoc]
    refine Agrees.bind (clusterRefFor_agrees r.pos r) fun c s hrun => ?_
    obtain ⟨⟨hlayout, hpos₁⟩, hc⟩ := Qcow2Reader.clusterRefFor_ends r.pos r c s hrun
    have hj : r.pos % r.clusterSize + m ≤ s.clusterSize := by
      rw [hlayout]
      omega
    rw [bind_assoc]
    refine Agrees.bind_map (readCluster_agrees inflate hread hc (by omega) hj) fun bytes t hrun' => ?_
    obtain ⟨⟨-, hpos₂⟩, hbytes⟩ := Qcow2Reader.readCluster_ends inflate hread _ m c s bytes t hrun'
    have hsum : t.pos + bytes.length < 2 ^ 64 := by omega
    apply Agrees.get_left
    rw [addIn_of_lt hsum, pure_bind, overwrite_zero]
    exact rfl

theorem fromBacking_agrees (hread : ReadsWithin β) (b : β) :
    Agrees fromBacking (do let L ← loadLayout; return L.fields) b := by
  have hwindow := (fill_agrees hread (show 104 < 2 ^ 64 by decide) b).adaptExcept Qcow2Error.io
  rw [adaptExcept_bind] at hwindow
  unfold loadLayout
  rw [bind_assoc]
  refine Agrees.bind_map hwindow ?_
  intro raw s hrun
  have hraw : raw.length ≤ 104 :=
    (fillLoop_ends hread 104 104).adaptExcept Qcow2Error.io b raw s hrun
  dsimp only
  rw [filled_window hraw, pure_bind, bind_assoc]
  refine Agrees.bind (Agrees.embed _ _) ?_
  intro hdr t _
  obtain ⟨hlow, hhigh⟩ := hdr.clusterBits_range
  have hentries : 1 ≤ 2 ^ hdr.clusterBits / 8 := by
    rw [two_pow_sub_three hlow]
    exact Nat.one_le_two_pow
  have hl1 := hdr.l1Size_lt
  have hfields : ∀ l1Buf, (Layout.ofHeader hdr l1Buf).fields =
      { virtualDiskSize := hdr.diskSize, clusterSize := 2 ^ hdr.clusterBits,
        l1Table := beWords l1Buf, l2Bits := hdr.clusterBits - 3,
        l2Mask := 2 ^ hdr.clusterBits / 8 - 1 } := by
    intro l1Buf
    simp only [Layout.fields, Layout.ofHeader, Nat.one_shiftLeft]
  have hload : ∀ off n, io (readExactAt off n : EStateM IoError β (List UInt8)) =
      io (ReadSeek.seek (.start off)) >>= fun _ => io (readExact n) :=
    fun off n => adaptExcept_bind _ _ _
  rw [shlIn_one (by omega), pure_bind, subIn_of_le (by omega), pure_bind, subIn_of_le hentries,
    pure_bind]
  by_cases hbig : maxL1Entries < hdr.l1Size
  · rw [if_pos hbig, if_pos hbig]
    rfl
  · rw [if_neg hbig, if_neg hbig, hload, bind_assoc, bind_assoc]
    refine Agrees.bind (Agrees.embed _ _) fun _ u _ => ?_
    rw [mulIn_of_lt (by omega), pure_bind]
    refine Agrees.bind (Agrees.embed _ _) fun l1Buf v _ => ?_
    rw [pure_bind, hfields]
    exact Agrees.pure _ _

end Checked

/-- Whatever the source holds and returns, opening passes all its checks; and from
what it opened so does every read at any position, whatever the inflater returns. -/
theorem open_and_read_never_panic {β : Type} [ReadSeek β] (inflate : Inflate)
    (hread : ReadsWithin β) (b : β) :
    outcome (Checked.fromBacking.run b) ≠ .error .panic ∧
      ∀ fields, outcome (Checked.fromBacking.run b) = .ok fields →
        ∃ r : Qcow2Reader β, fromBacking b = .ok r ∧ r.fields = fields ∧
          ∀ r' : Qcow2Reader β, r'.toLayout = r.toLayout → r'.pos < 2 ^ 64 →
            ∀ buf, outcome ((Checked.read inflate buf).run r') ≠ .error .panic := by
  have hopen := Checked.fromBacking_agrees hread b
  refine ⟨hopen.ne_panic, ?_⟩
  intro fields hok
  have hloaded := hopen.outcome_ok hok
  rw [EStateM.run_bind] at hloaded
  cases hrun : loadLayout.run b with
  | error e t => simp [hrun, outcome] at hloaded
  | ok L t =>
    rw [hrun] at hloaded
    refine ⟨{ L with backing := t, pos := 0 }, by rw [fromBacking, hrun], Except.ok.inj hloaded, ?_⟩
    intro r' _ hpos buf
    exact (Checked.read_agrees inflate hread buf hpos).ne_panic

theorem readsWithin_cursor : ReadsWithin Cursor := by
  intro n b b' bs hrun
  cases hrun
  exact length_slice_le _ _ _

theorem open_and_read_never_panic_sample : ∃ r : Qcow2Reader Cursor,
    fromBacking (Cursor.mk (evidenceImage 0) 0) = .ok r ∧ r.l1Table = [1024] ∧
      (outcome ((Qcow2Reader.clusterRefFor 512).run r)).toOption = some (.compressed 3072 512) ∧
      ∀ r' : Qcow2Reader Cursor, r'.toLayout = r.toLayout → r'.pos < 2 ^ 64 →
        ∀ buf, outcome ((Checked.read .ok buf).run r') ≠ .error .panic := by
  obtain ⟨fields, hok⟩ := exists_ok
    (x := outcome (Checked.fromBacking.run (Cursor.mk (evidenceImage 0) 0))) (by decide +kernel)
  obtain ⟨r, hr, -, hread⟩ := (open_and_read_never_panic .ok readsWithin_cursor _).2 fields hok
  obtain ⟨r₁, hr₁, hmap⟩ := exists_ok_map (x := fromBacking (Cursor.mk (evidenceImage 0) 0))
    (f := fun r => (r.l1Table, (outcome ((Qcow2Reader.clusterRefFor 512).run r)).toOption))
    (b := ([1024], some (.compressed 3072 512))) (by decide +kernel)
  obtain rfl : r = r₁ := Except.ok.inj (hr.symm.trans hr₁)
  obtain ⟨htable, hcluster⟩ := Prod.mk.inj hmap
  exact ⟨r, hr, htable, hcluster, hread⟩

end Qcow2
