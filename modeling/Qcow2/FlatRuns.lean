import Qcow2.ReaderRefines
import Qcow2.StdIo.Calls

/-! Whole histories of seeks and reads on the reader are histories of a flat guest
disk, whose bytes are given here by plain division on the image. -/

namespace Qcow2

open StdIo

/-- The guest byte at offset `i`; `none` when the L2 entry or the host byte lies
outside the image or the cluster does not inflate. -/
def guestByte (inflate : Inflate) (image : List UInt8) (i : Nat) : Option UInt8 :=
  let cb := beAt image 20 4
  let cs := 2 ^ cb
  let c := i / cs
  let l1Slot := c / (cs / 8)
  let l2Slot := c % (cs / 8)
  let l1Entry := if l1Slot < beAt image 36 4 then beAt image (beAt image 40 8 + l1Slot * 8) 8 else 0
  if l1Entry % 2 ^ 63 = 0 then some 0
  else if image.length < l1Entry % 2 ^ 63 + l2Slot * 8 + 8 then none
  else
    let e := beAt image (l1Entry % 2 ^ 63 + l2Slot * 8) 8
    if e.testBit 62 then
      let window := slice image (e % 2 ^ (63 - cb)) ((e / 2 ^ (63 - cb) % 2 ^ (cb - 1) + 1) * 512)
      (inflate window).toOption.map fun out => out.getD (i % cs) 0
    else if e.testBit 0 ∨ e % 2 ^ 62 = 0 then some 0
    else image[e % 2 ^ 62 + i % cs]?

theorem disk_get?_ofImage (inflate : Inflate) (image : List UInt8) (i : Nat) :
    ((GuestMap.ofImage image).disk (Medium.memory image) inflate).get? i =
      guestByte inflate image i := by
  have htable : (GuestMap.ofImage image).l2Table i =
      (if i / 2 ^ beAt image 20 4 / (2 ^ beAt image 20 4 / 8) < beAt image 36 4 then
        beAt image (beAt image 40 8 + i / 2 ^ beAt image 20 4 / (2 ^ beAt image 20 4 / 8) * 8) 8
      else 0) % 2 ^ 63 := by
    simp only [GuestMap.l2Table, GuestMap.ofImage, GuestMap.clusterSize, GuestMap.slots]
    split <;> rfl
  rw [GuestMap.disk_get?, GuestMap.fetchIn_entryRef, htable]
  rfl

inductive Call where
  | seek (s : SeekFrom)
  | read (buf : List UInt8)

/-- What a call returns. A read hands the caller's buffer back. -/
inductive Reply where
  | sought (o : Except IoError Nat)
  | got (o : Except IoError (Nat × List UInt8))

/-- The sum a seek asks for, in exact arithmetic on the `i64` operands. -/
def exactTarget (size pos : Nat) : SeekFrom → Int
  | .start n => asI64 n
  | .current n => asI64 pos + n
  | .fromEnd n => asI64 size + n

/-- One call on a flat disk of `size` bytes `D`, from position `p` to `q`. -/
inductive FlatStep (D : Nat → Option UInt8) (size : Nat) : Nat → Call → Reply → Nat → Prop
  | seek {p q : Nat} {s : SeekFrom} (hq : exactTarget size p s = q) :
      FlatStep D size p (.seek s) (.sought (.ok q)) q
  | seekBeforeStart {p : Nat} {s : SeekFrom} (hs : exactTarget size p s < 0) :
      FlatStep D size p (.seek s) (.sought (.error Qcow2Reader.seekBeforeStart)) p
  | atEnd {p : Nat} {buf : List UInt8} (hp : size ≤ p ∨ buf = []) :
      FlatStep D size p (.read buf) (.got (.ok (0, buf))) p
  | undefined {p : Nat} {buf : List UInt8} {o : Except IoError (Nat × List UInt8)}
      (hp : p < size) (hD : D p = none) (ho : o = .ok (0, buf) ∨ ∃ e, o = .error e) :
      FlatStep D size p (.read buf) (.got o) p
  | bytes {p n : Nat} {buf buf' : List UInt8} (hpos : 0 < n) (hn : n ≤ buf.length)
      (hsize : p + n ≤ size) (hlen : buf'.length = buf.length)
      (hD : ∀ k, k < n → D (p + k) ≠ none ∧ buf'[k]? = D (p + k))
      (hrest : ∀ k, n ≤ k → buf'[k]? = buf[k]?) :
      FlatStep D size p (.read buf) (.got (.ok (n, buf'))) (p + n)

theorem FlatStep.of_reads {d : FlatDisk IoError UInt8} {p : Nat} {buf : List UInt8}
    {o : Except IoError (List UInt8)} (h : d.Reads p buf.length o) :
    FlatStep d.get? d.size p (.read buf)
      (.got (o.map fun bs => (bs.length, bs ++ buf.drop bs.length))) (FlatDisk.after p o) := by
  by_cases hend : d.size ≤ p ∨ buf = []
  · have hend' : buf.length = 0 ∨ d.size ≤ p := by
      rcases hend with hp | hbuf
      · exact .inr hp
      · exact .inl (by simp [hbuf])
    obtain rfl := h.at_end hend'
    exact .atEnd hend
  · have hp : p < d.size := by omega
    have hlen : buf.length ≠ 0 := mt List.length_eq_zero_iff.mp fun hbuf => hend (.inr hbuf)
    cases o with
    | error e =>
      have hf := (h.error_iff hlen hp e).mp rfl
      exact .undefined hp (by simp [FlatDisk.get?, hf, Except.toOption]) (.inr ⟨e, rfl⟩)
    | ok bs =>
      by_cases hbs : bs = []
      · subst hbs
        have hf := (h.nil_iff hlen hp).mp rfl
        exact .undefined hp (by simp [FlatDisk.get?, hf, Except.toOption]) (.inl rfl)
      · have hpos : 0 < bs.length := List.length_pos_iff.mpr hbs
        obtain ⟨hle, hsize, hget⟩ := h.ok_bounds
        refine .bytes hpos hle (hsize hbs) (by simp; omega) ?_ ?_
        · intro k hk
          have hd := FlatDisk.get?_eq_some_iff.mpr (hget k bs[k] (List.getElem?_eq_getElem hk))
          rw [hd]
          simp [List.getElem?_append_left hk]
        · intro k hk
          rw [List.getElem?_append_right hk, List.getElem?_drop]
          congr 1
          omega

/-- Only the bytes of the disk matter. -/
theorem FlatStep.congr {D D' : Nat → Option UInt8} {size p q : Nat} {c : Call} {r : Reply}
    (hD : ∀ i, i < size → D i = D' i) (h : FlatStep D size p c r q) : FlatStep D' size p c r q := by
  cases h with
  | seek hq => exact .seek hq
  | seekBeforeStart hs => exact .seekBeforeStart hs
  | atEnd hp => exact .atEnd hp
  | undefined hp hnone ho => exact .undefined hp (hD p hp ▸ hnone) ho
  | bytes hpos hn hsize hlen hbytes hrest =>
    refine .bytes hpos hn hsize hlen (fun k hk => ?_) hrest
    rw [← hD (p + k) (by omega)]
    exact hbytes k hk

namespace Qcow2Reader

variable {β : Type} [ReadSeek β] (inflate : Inflate)

def call : Machine (Qcow2Reader β) Call Reply
  | .seek s, r => (answer (seek s) r).map .sought id
  | .read buf, r => (answer (read inflate buf) r).map .got id

def SeekFits : Call → Qcow2Reader β → Prop
  | .seek s, r => InI64 (exactTarget r.virtualDiskSize r.pos s)
  | .read _, _ => True

theorem seekTarget_eq {size p : Nat} {s : SeekFrom} (h : InI64 (exactTarget size p s)) :
    seekTarget size p s = exactTarget size p s := by
  cases s with
  | start n => rfl
  | current n => exact i64Add_of_in h
  | fromEnd n => exact i64Add_of_in h

variable {M : Medium} {cursor : β → Nat → Prop} {L : Layout}

theorem read_run (S : Serves M cursor) {p : Nat} {r : Qcow2Reader β} (hr : At cursor L p r)
    (buf : List UInt8) :
    ∃ o r', (read inflate buf).run r =
        withState (o.map fun bs => (bs.length, bs ++ buf.drop bs.length)) r' ∧
      (L.guestMap.disk M inflate).Reads p buf.length o ∧ At cursor L (FlatDisk.after p o) r' := by
  obtain ⟨o, r', hrun, hreads, hr'⟩ := readBytes_reads inflate S hr buf.length
  refine ⟨o, r', ?_, hreads, hr'⟩
  rw [read, EStateM.run_bind, hrun]
  cases o <;> rfl

theorem call_flatStep (S : Serves M cursor) {p : Nat} {r : Qcow2Reader β}
    (hr : At cursor L p r) (c : Call) (hc : SeekFits c r) :
    ∃ q, FlatStep (L.guestMap.disk M inflate).get? L.virtualDiskSize p c (call inflate c r).1 q ∧
      At cursor L q (call inflate c r).2 := by
  cases c with
  | seek s =>
    obtain ⟨r', hrun, hr'⟩ := seek_run hr s
    have hcall : call inflate (.seek s) r =
        (.sought (seekOutcome L.virtualDiskSize p s), r') := by
      simp only [call, answer_eq hrun, Prod.map, id]
    have hfits : InI64 (exactTarget L.virtualDiskSize p s) := by
      rw [← hr.1, ← hr.2.1]
      exact hc
    have htarget := seekTarget_eq hfits
    rw [hcall]
    refine ⟨_, ?_, hr'⟩
    unfold seekOutcome
    by_cases hneg : seekTarget L.virtualDiskSize p s < 0
    · rw [if_pos hneg]
      exact .seekBeforeStart (by omega)
    · rw [if_neg hneg]
      exact .seek (by omega)
  | read buf =>
    obtain ⟨o, r', hrun, hreads, hr'⟩ := read_run inflate S hr buf
    have hcall : call inflate (.read buf) r =
        (.got (o.map fun bs => (bs.length, bs ++ buf.drop bs.length)), r') := by
      simp only [call, answer_eq hrun, Prod.map, id]
    rw [hcall]
    exact ⟨_, .of_reads hreads, hr'⟩

theorem call_run_at (S : Serves M cursor) {p : Nat} {r : Qcow2Reader β} (hr : At cursor L p r)
    (cs : List Call) : ∃ q, At cursor L q ((call inflate).run cs r).2 := by
  apply Machine.run_invariant (I := fun r => ∃ q, At cursor L q r) _ ⟨p, hr⟩
  intro r c hr
  rcases hr with ⟨q, hq⟩
  cases c with
  | seek s =>
    obtain ⟨r', hrun, hr'⟩ := seek_run hq s
    rw [call, answer_eq hrun]
    exact ⟨_, hr'⟩
  | read buf =>
    obtain ⟨o, r', hrun, -, hr'⟩ := read_run inflate S hq buf
    rw [call, answer_eq hrun]
    exact ⟨_, hr'⟩

end Qcow2Reader

theorem opened_image {image : List UInt8} {r₀ : Qcow2Reader Cursor}
    (h : fromBacking (Cursor.mk image 0) = .ok r₀) :
    Qcow2Reader.At (Cursor.On image) r₀.toLayout 0 r₀ ∧
      r₀.guestMap = GuestMap.ofImage image ∧ r₀.virtualDiskSize = beAt image 24 8 := by
  obtain ⟨hl, hat⟩ := fromBacking_at (serves_cursor image) (Cursor.on_start image) h
  have hmap := openedLayout_guestMap hl
  exact ⟨hat, hmap, congrArg GuestMap.size hmap⟩

theorem opened_disk_get? (inflate : Inflate) {image : List UInt8} {r₀ : Qcow2Reader Cursor}
    (h : fromBacking (Cursor.mk image 0) = .ok r₀) :
    (r₀.guestMap.disk (Medium.memory image) inflate).get? = guestByte inflate image := by
  funext i
  rw [(opened_image h).2.1, disk_get?_ofImage]

/-- Any history of seeks and reads on an opened image is one of a flat disk whose
bytes are `guestByte`. -/
theorem reader_refines_flat_disk (inflate : Inflate) (image : List UInt8)
    {r₀ : Qcow2Reader Cursor} (h : fromBacking (Cursor.mk image 0) = .ok r₀) {cs : List Call}
    (hcs : (Qcow2Reader.call inflate).Admits Qcow2Reader.SeekFits cs r₀) :
    ∃ p, Runs (FlatStep (guestByte inflate image) r₀.virtualDiskSize) 0 cs
        ((Qcow2Reader.call inflate).run cs r₀).1 p ∧
      ((Qcow2Reader.call inflate).run cs r₀).2.pos = p := by
  have hstep : ∀ (r : Qcow2Reader Cursor) (p : Nat) (c : Call),
      Qcow2Reader.At (Cursor.On image) r₀.toLayout p r → Qcow2Reader.SeekFits c r → _ :=
    fun _ _ c hr hc => Qcow2Reader.call_flatStep inflate (serves_cursor image) hr c hc
  obtain ⟨p, hrun, hp⟩ := Machine.simulates hstep (opened_image h).1 hcs
  rw [opened_disk_get? inflate h] at hrun
  exact ⟨p, hrun, hp.2.1⟩

/-- Four bytes of data behind one L1 and one L2 entry. -/
def sampleImage : List UInt8 :=
  headerBytes 2 9 4 1 72 0 0 ++ beBytes 8 80 ++ beBytes 8 88 ++ [1, 2, 3, 4]

theorem reader_refines_flat_disk_sample : ∃ r₀ p, fromBacking (Cursor.mk sampleImage 0) = .ok r₀ ∧
    Runs (FlatStep (guestByte .ok sampleImage) r₀.virtualDiskSize) 0
      [.seek (.start 2), .read [0, 0, 0, 0], .seek (.start 1), .read [0]]
      ((Qcow2Reader.call .ok).run [.seek (.start 2), .read [0, 0, 0, 0], .seek (.start 1), .read [0]]
        r₀).1 p := by
  obtain ⟨r₀, h⟩ := exists_ok (x := fromBacking (Cursor.mk sampleImage 0)) (by decide)
  obtain ⟨p, hrun, -⟩ := reader_refines_flat_disk .ok sampleImage h
    (show Machine.Admits _ _ [.seek (.start 2), .read [0, 0, 0, 0], .seek (.start 1), .read [0]] r₀
      from ⟨asI64_in (show 2 < 2 ^ 64 by decide), trivial, asI64_in (show 1 < 2 ^ 64 by decide), trivial,
        trivial⟩)
  exact ⟨r₀, p, h, hrun⟩

end Qcow2
