import Qcow2.Source
import Qcow2.CheckedRefines
import Qcow2.StdIo.Triple

/-! The positioned read with its slices and its count checked, over whole sequences of calls:
nothing under the lock panics but the source and the decoder themselves. -/

namespace Qcow2

open StdIo

namespace Checked

variable {β : Type} [ReadSeek β]

def onReader {α : Type} (op : String) (x : EStateM (Trap IoError) (Qcow2Reader β) α) :
    EStateM (Trap VfsError) (Qcow2Source β) α :=
  zoom Qcow2Source.inner (fun r s => { s with inner := r })
    (EStateM.adaptExcept (Trap.map (.io op)) x)

def fillBuf (inflate : Inflate) (want : Nat) :
    Nat → Nat → List UInt8 → EStateM (Trap VfsError) (Qcow2Source β) (Nat × List UInt8)
  | 0, total, buf => return (total, buf)
  | fuel + 1, total, buf => do
    if want ≤ total then
      return (total, buf)
    let rest ← sliceIn buf total want
    let (n, part) ← onReader "qcow2::read" (read inflate rest)
    let buf := buf.take total ++ part ++ buf.drop want
    if n = 0 then
      return (total, buf)
    let total ← addIn 64 total n
    fillBuf inflate want fuel total buf

/-- The subtraction that finds `avail` saturates, and a seek from the start adds nothing. -/
def Qcow2Source.readAt (inflate : Inflate) (offset : Nat) (buf : List UInt8) :
    EStateM (Trap VfsError) (Qcow2Source β) (Nat × List UInt8) := do
  let src ← get
  let avail := src.len - offset
  if avail = 0 then
    return (0, buf)
  let want := asUsize (min buf.length avail)
  let _ ← onReader "qcow2::seek" (embed (Qcow2Reader.seek (.start offset)))
  fillBuf inflate want want 0 buf

end Checked

namespace Qcow2Reader

variable {β : Type} [ReadSeek β]

omit [ReadSeek β] in
theorem onBacking_pos {α : Type} (x : EStateM IoError β α) (p : Nat) :
    Triple (fun r : Qcow2Reader β => r.pos = p) (onBacking x) (fun _ r => r.pos = p)
      (fun r => r.pos = p) :=
  Triple.zoom_frame (fun _ _ _ hs => hs) fun _ _ hs => hs

theorem clusterRefFor_pos (v p : Nat) :
    Triple (fun r : Qcow2Reader β => r.pos = p) (clusterRefFor v) (fun _ r => r.pos = p)
      (fun r => r.pos = p) := by
  refine Triple.get_bind fun r => ?_
  dsimp only
  refine Triple.ite (fun _ => Triple.pure fun s hs => hs.1 ▸ hs.2) fun _ => ?_
  exact ((onBacking_pos _ p).mono_pre fun s hs => hs.1 ▸ hs.2).bind fun _ => Triple.pure fun _ h => h

theorem readCluster_pos (inflate : Inflate) (j m p : Nat) (c : ClusterRef) :
    Triple (fun r : Qcow2Reader β => r.pos = p) (readCluster inflate j m c) (fun _ r => r.pos = p)
      (fun r => r.pos = p) := by
  cases c with
  | unallocated => exact Triple.pure fun _ h => h
  | zeroCluster => exact Triple.pure fun _ h => h
  | normal o => exact (onBacking_pos _ p).bind fun _ => onBacking_pos _ p
  | compressed off n =>
    refine Triple.bind (Triple.get_bind fun r => ?_) fun _ => Triple.pure fun _ h => h
    refine ((onBacking_pos _ p).mono_pre fun s hs => hs.1 ▸ hs.2).bind fun _ => ?_
    exact (Triple.fromResult (fun _ _ _ h => h) (fun _ h => h)).bind fun _ => Triple.pure fun _ h => h

/-- A read leaves the position in its word, whether it succeeds or fails. -/
theorem read_pos (hread : ReadsWithin β) (inflate : Inflate) (buf : List UInt8) :
    Triple (fun r : Qcow2Reader β => r.pos < 2 ^ 64) (read inflate buf)
      (fun x r => r.pos < 2 ^ 64 ∧ x.1 ≤ buf.length ∧ x.2.length = buf.length)
      (fun r => r.pos < 2 ^ 64) := by
  have hbytes : Triple (fun r : Qcow2Reader β => r.pos < 2 ^ 64) (readBytes inflate buf.length)
      (fun bytes r => r.pos < 2 ^ 64 ∧ bytes.length ≤ buf.length) (fun r => r.pos < 2 ^ 64) := by
    refine Triple.get_bind fun r => ?_
    have hdisk := r.virtualDiskSize_lt
    refine Triple.ite (fun _ => Triple.pure fun s hs => ⟨hs.1 ▸ hs.2, Nat.zero_le _⟩) fun hend => ?_
    have hvirtual : asUsize (r.virtualDiskSize - r.pos) = r.virtualDiskSize - r.pos :=
      asUsize_of_lt (by omega)
    dsimp only
    rw [hvirtual]
    obtain ⟨m, hm⟩ : ∃ m, m = min (min buf.length (r.virtualDiskSize - r.pos))
      (asUsize r.clusterSize - asUsize (r.pos &&& (r.clusterSize - 1))) := ⟨_, rfl⟩
    rw [← hm]
    by_cases hpos : r.pos < 2 ^ 64
    · have hfail : ∀ s : Qcow2Reader β, s.pos = r.pos → s.pos < 2 ^ 64 := by omega
      refine (((clusterRefFor_pos r.pos r.pos).mono_pre fun s hs => by rw [hs.1]).mono_fail
        hfail).bind fun c => ?_
      have hcluster := (readCluster_pos inflate (asUsize (r.pos &&& (r.clusterSize - 1))) m r.pos
        c).and_ends (P := fun bytes => bytes.length ≤ m)
          fun s bytes t hrun => (readCluster_ends inflate hread _ m c s bytes t hrun).2
      refine (hcluster.mono_fail hfail).bind fun bytes => ?_
      have hmoved : Triple (fun s : Qcow2Reader β => s.pos = r.pos ∧ bytes.length ≤ m)
          (modify fun s => { s with pos := s.pos + bytes.length } :
            EStateM IoError (Qcow2Reader β) PUnit)
          (fun _ s => s.pos < 2 ^ 64 ∧ bytes.length ≤ buf.length) fun s => s.pos < 2 ^ 64 :=
        Triple.modify fun s hs => ⟨show s.pos + bytes.length < 2 ^ 64 by omega, by omega⟩
      exact hmoved.bind fun _ => Triple.pure fun _ h => h
    · exact fun s hs => absurd hs.2 hpos
  refine hbytes.bind fun bytes => Triple.pure fun r hr => ?_
  refine ⟨hr.1, hr.2, ?_⟩
  simp only [List.length_append, List.length_drop]
  omega

omit [ReadSeek β] in
theorem seek_start_pos (offset : Nat) :
    Triple (fun r : Qcow2Reader β => r.pos < 2 ^ 64 ∧ offset < 2 ^ 64) (seek (.start offset))
      (fun _ r => r.pos < 2 ^ 64) (fun r => r.pos < 2 ^ 64) := by
  refine Triple.get_bind fun r => ?_
  dsimp only
  by_cases hneg : seekTarget r.virtualDiskSize r.pos (.start offset) < 0
  · rw [if_pos hneg]
    exact Triple.throw fun s hs => hs.1 ▸ hs.2.1
  · rw [if_neg hneg]
    intro s hs
    have hin := (asI64_in hs.2.2).2
    have htarget : seekTarget r.virtualDiskSize r.pos (.start offset) = asI64 offset := rfl
    exact show (seekTarget r.virtualDiskSize r.pos (.start offset)).toNat < 2 ^ 64 by omega

end Qcow2Reader

namespace Qcow2Source

variable {β : Type} [ReadSeek β] (inflate : Inflate)

def InWord (s : Qcow2Source β) : Prop := s.inner.pos < 2 ^ 64

omit [ReadSeek β] in
theorem onReader_inWord {α : Type} {op : String} {x : EStateM IoError (Qcow2Reader β) α}
    {P : α → Prop} (h : Triple (fun r : Qcow2Reader β => r.pos < 2 ^ 64) x
      (fun a r => r.pos < 2 ^ 64 ∧ P a) (fun r => r.pos < 2 ^ 64)) :
    Triple InWord (onReader op x) (fun a s => InWord s ∧ P a) InWord :=
  (h.adaptExcept _).zoom (fun _ hs => hs) (fun _ _ _ _ ht => ht) (fun _ _ _ ht => ht)

omit [ReadSeek β] in
theorem seekTo_inWord {offset : Nat} (hoff : offset < 2 ^ 64) :
    Triple InWord (onReader "qcow2::seek" (Qcow2Reader.seek (.start offset)) :
      EStateM VfsError (Qcow2Source β) Nat) (fun _ s => InWord s ∧ True) InWord :=
  onReader_inWord ((Qcow2Reader.seek_start_pos offset).conseq (fun _ h => ⟨h, hoff⟩)
    (fun _ _ h => ⟨h, trivial⟩) (fun _ h => h))

theorem fillBuf_inWord (hread : ReadsWithin β) (want fuel total : Nat) (buf : List UInt8) :
    Triple InWord (fillBuf inflate want fuel total buf : EStateM VfsError (Qcow2Source β) _)
      (fun _ s => InWord s) InWord := by
  induction fuel generalizing total buf with
  | zero => exact Triple.pure fun _ h => h
  | succ fuel ih =>
    rw [fillBuf]
    refine Triple.ite (fun _ => Triple.pure fun _ h => h) fun _ => ?_
    refine (onReader_inWord (Qcow2Reader.read_pos hread inflate _)).bind fun x => ?_
    dsimp only
    refine Triple.ite (fun _ => Triple.pure fun _ h => h.1) fun _ => ?_
    exact (ih _ _).mono_pre fun _ h => h.1

theorem readAt_inWord (hread : ReadsWithin β) {offset : Nat} (hoff : offset < 2 ^ 64)
    (buf : List UInt8) :
    Triple InWord (readAt inflate offset buf : EStateM VfsError (Qcow2Source β) _)
      (fun _ s => InWord s) InWord := by
  refine Triple.get_bind fun src => ?_
  dsimp only
  have hsrc : ∀ s : Qcow2Source β, s = src ∧ InWord src → InWord s := fun s hs => hs.1 ▸ hs.2
  refine Triple.ite (fun _ => Triple.pure hsrc) fun _ => ?_
  exact ((seekTo_inWord hoff).mono_pre hsrc).bind fun _ =>
    (fillBuf_inWord inflate hread _ _ _ _).mono_pre fun _ h => h.1

end Qcow2Source

namespace Checked

variable {β : Type} [ReadSeek β] (inflate : Inflate)

omit [ReadSeek β] in
theorem onReader_agrees {α : Type} {op : String} {x' : EStateM (Trap IoError) (Qcow2Reader β) α}
    {x : EStateM IoError (Qcow2Reader β) α} {s : Qcow2Source β} (h : Agrees x' x s.inner) :
    Agrees (onReader op x') (Qcow2Source.onReader op x) s :=
  Agrees.zoom _ (h.adaptExcept _)

theorem fillBuf_agrees (hread : ReadsWithin β) {want fuel total : Nat} {buf : List UInt8}
    {s : Qcow2Source β} (hs : Qcow2Source.InWord s) (hwant : want ≤ buf.length)
    (hbuf : buf.length < 2 ^ 64) :
    Agrees (fillBuf inflate want fuel total buf) (Qcow2Source.fillBuf inflate want fuel total buf)
      s := by
  induction fuel generalizing total buf s with
  | zero => exact Agrees.pure _ _
  | succ fuel ih =>
    rw [fillBuf, Qcow2Source.fillBuf]
    refine Agrees.ite (fun _ => Agrees.pure _ _) fun hmore => ?_
    have hrest : (slice buf total (want - total)).length = want - total :=
      length_slice_of_le (by omega)
    rw [sliceIn_of_le (by omega) hwant, pure_bind]
    refine Agrees.bind (onReader_agrees (read_agrees inflate hread _ hs)) fun x t hrun => ?_
    obtain ⟨ht, hn, hpart⟩ := (Qcow2Source.onReader_inWord
      (Qcow2Reader.read_pos hread inflate _)).ok hs hrun
    rw [hrest] at hn hpart
    have hlen : (buf.take total ++ x.2 ++ buf.drop want).length = buf.length := by
      simp only [List.length_append, List.length_take, List.length_drop, hpart]
      omega
    dsimp only
    refine Agrees.ite (fun _ => Agrees.pure _ _) fun _ => ?_
    rw [addIn_of_lt (by omega), pure_bind]
    exact ih ht (by omega) (by omega)

theorem readAt_agrees (hread : ReadsWithin β) (offset : Nat) {buf : List UInt8}
    (hbuf : buf.length < 2 ^ 64) {s : Qcow2Source β} (hs : Qcow2Source.InWord s)
    (hoff : offset < 2 ^ 64) :
    Agrees (Qcow2Source.readAt inflate offset buf) (Qcow2.Qcow2Source.readAt inflate offset buf)
      s := by
  apply Agrees.get_bind
  dsimp only
  refine Agrees.ite (fun _ => Agrees.pure _ _) fun _ => ?_
  refine Agrees.bind (onReader_agrees (Agrees.embed _ _)) fun _ t hrun => ?_
  have hle : asUsize (min buf.length (s.len - offset)) ≤ min buf.length (s.len - offset) :=
    Nat.mod_le _ _
  have ht := ((Qcow2Source.seekTo_inWord hoff).ok hs hrun).1
  exact fillBuf_agrees inflate hread ht (by omega) hbuf

variable {κ : Type}

def serve : Machine (Qcow2Source β) (ReadAtCall κ) (Except (Trap VfsError) (Nat × List UInt8)) :=
  fun c s => answer (Qcow2Source.readAt inflate c.offset c.buf) s

theorem serve_eq (hread : ReadsWithin β) {c : ReadAtCall κ} {s : Qcow2Source β}
    (hs : Qcow2Source.InWord s) (hoff : c.offset < 2 ^ 64) (hbuf : c.buf.length < 2 ^ 64) :
    serve inflate c s = ((Qcow2.Qcow2Source.serve inflate c s).1.mapError .error,
        (Qcow2.Qcow2Source.serve inflate c s).2) ∧
      Qcow2Source.InWord (Qcow2.Qcow2Source.serve inflate c s).2 := by
  have hagrees := readAt_agrees inflate hread c.offset hbuf hs hoff
  have hword := Qcow2Source.readAt_inWord inflate hread hoff c.buf
  rw [Agrees] at hagrees
  rw [serve, Qcow2.Qcow2Source.serve]
  cases hrun : (Qcow2.Qcow2Source.readAt inflate c.offset c.buf).run s with
  | ok x t =>
    rw [run_embed_ok hrun] at hagrees
    rw [answer, answer, hagrees, hrun]
    exact ⟨rfl, hword.ok hs hrun⟩
  | error e t =>
    rw [run_embed_error hrun] at hagrees
    rw [answer, answer, hagrees, hrun]
    exact ⟨rfl, hword.error hs hrun⟩

end Checked

/-- Whatever the source and the decoder do, a source never panics in any sequence of calls: it
answers all of them, and ends, as without the checks. -/
theorem read_at_never_panics {β κ : Type} [ReadSeek β] (inflate : Inflate)
    (hread : ReadsWithin β) {s : Qcow2Source β} (hpos : s.inner.pos < 2 ^ 64)
    {cs : List (ReadAtCall κ)} (hcs : ∀ c ∈ cs, c.offset < 2 ^ 64 ∧ c.buf.length < 2 ^ 64) :
    (∀ o ∈ ((Checked.serve inflate).run cs s).1, o ≠ .error .panic) ∧
      ((Checked.serve inflate).run cs s).1 =
        ((Qcow2Source.serve inflate).run cs s).1.map (Except.mapError .error) ∧
      ((Checked.serve inflate).run cs s).2 = ((Qcow2Source.serve inflate).run cs s).2 := by
  have hrun : (Checked.serve inflate).run cs s =
      (((Qcow2Source.serve inflate).run cs s).1.map (Except.mapError .error),
        ((Qcow2Source.serve inflate).run cs s).2) := by
    induction cs generalizing s with
    | nil => rfl
    | cons c cs ih =>
      obtain ⟨hoff, hbuf⟩ := hcs c List.mem_cons_self
      obtain ⟨hstep, hword⟩ := Checked.serve_eq inflate hread hpos hoff hbuf
      have hrest := ih hword fun c' hc' => hcs c' (List.mem_cons_of_mem _ hc')
      simp only [Machine.run, hstep, hrest, List.map_cons]
  rw [hrun]
  refine ⟨?_, rfl, rfl⟩
  intro o ho
  obtain ⟨o', -, rfl⟩ := List.mem_map.mp ho
  cases o' <;> simp [Except.mapError]

theorem read_at_never_panics_sample : ∃ r₀, fromBacking (Cursor.mk sampleImage 0) = .ok r₀ ∧
    ∀ o ∈ ((Checked.serve .ok).run [⟨true, 3, [9, 9]⟩, ⟨false, 2 ^ 63, [9]⟩] (.new r₀)).1,
      o ≠ .error .panic := by
  obtain ⟨r₀, h⟩ := exists_ok (x := fromBacking (Cursor.mk sampleImage 0)) (by decide)
  have hpos : r₀.pos = 0 := (opened_image h).1.2.1
  exact ⟨r₀, h, (read_at_never_panics .ok readsWithin_cursor
    (show (Qcow2Source.new r₀).inner.pos < 2 ^ 64 by rw [Qcow2Source.new, hpos]; decide)
    (by decide)).1⟩

end Qcow2
