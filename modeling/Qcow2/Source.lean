import Qcow2.FlatRuns

/-! The positioned source behind a lock: one shared reader, a seek and a fill loop
for every call. -/

namespace Qcow2

open StdIo

inductive VfsError where
  | io (op : String) (source : IoError)
  deriving DecidableEq

structure Qcow2Source (β : Type) where
  inner : Qcow2Reader β
  len : Nat

namespace Qcow2Source

def new {β : Type} (reader : Qcow2Reader β) : Qcow2Source β := ⟨reader, reader.virtualDiskSize⟩

section

variable {β : Type} [ReadSeek β] [Target]

def onReader {α : Type} (op : String) (x : EStateM IoError (Qcow2Reader β) α) :
    EStateM VfsError (Qcow2Source β) α :=
  zoom Qcow2Source.inner (fun r s => { s with inner := r }) (EStateM.adaptExcept (.io op) x)

/-- The loop of `read_at`: reads into `buf[total..want]` until it is full or a read
returns none. Every pass adds at least one byte to `total`. -/
def fillBuf (inflate : Inflate) (want : Nat) :
    Nat → Nat → List UInt8 → EStateM VfsError (Qcow2Source β) (Nat × List UInt8)
  | 0, total, buf => return (total, buf)
  | fuel + 1, total, buf => do
    if want ≤ total then
      return (total, buf)
    let (n, part) ←
      onReader "qcow2::read" (Qcow2Reader.read inflate (slice buf total (want - total)))
    let buf := buf.take total ++ part ++ buf.drop want
    if n = 0 then
      return (total, buf)
    fillBuf inflate want fuel (total + n) buf

/-- `ImageSource::read_at`, under the lock: the count and the caller's buffer. -/
def readAt (inflate : Inflate) (offset : Nat) (buf : List UInt8) :
    EStateM VfsError (Qcow2Source β) (Nat × List UInt8) := do
  let src ← get
  let avail := src.len - offset
  if avail = 0 then
    return (0, buf)
  let want := asUsize (min buf.length avail)
  let _ ← onReader "qcow2::seek" (Qcow2Reader.seek (.start offset))
  fillBuf inflate want want 0 buf

end

def readAtOf (d : FlatDisk IoError UInt8) (offset : Nat) (buf : List UInt8) :
    Except VfsError (Nat × List UInt8) :=
  if d.size ≤ offset then .ok (0, buf)
  else if 2 ^ 63 ≤ offset then .error (.io "qcow2::seek" Qcow2Reader.seekBeforeStart)
  else match d.stream (min buf.length (d.size - offset)) offset with
    | (bs, none) => .ok (bs.length, overwrite buf 0 bs)
    | (_, some e) => .error (.io "qcow2::read" e)

def At {β : Type} (cursor : β → Nat → Prop) (L : Layout) (p : Nat) (s : Qcow2Source β) : Prop :=
  Qcow2Reader.At cursor L p s.inner ∧ s.len = L.virtualDiskSize

def Standing {β : Type} (cursor : β → Nat → Prop) (L : Layout) (s : Qcow2Source β) : Prop :=
  ∃ p, At cursor L p s

variable {β : Type} [ReadSeek β] {M : Medium} {cursor : β → Nat → Prop} {L : Layout}
  (inflate : Inflate)

omit [ReadSeek β] in
theorem onReader_run {α : Type} {op : String} {x : EStateM IoError (Qcow2Reader β) α}
    {o : Except IoError α} {s : Qcow2Source β} {r : Qcow2Reader β}
    (h : x.run s.inner = withState o r) :
    (onReader op x).run s = withState (o.mapError (.io op)) { s with inner := r } := by
  have hadapt : (EStateM.adaptExcept (VfsError.io op) x).run s.inner =
      withState (o.mapError (.io op)) r := by
    rw [EStateM.run_adaptExcept, h]
    cases o <;> rfl
  simp only [onReader, zoom, EStateM.run] at hadapt ⊢
  rw [hadapt]
  cases o <;> rfl

theorem fillBuf_step {fuel want total : Nat} {buf : List UInt8} {s : Qcow2Source β}
    {o : Except IoError (List UInt8)} {r : Qcow2Reader β} (hmore : ¬ want ≤ total)
    (hbytes : ∀ bs, o = .ok bs → bs.length ≤ want - total)
    (hrun : (Qcow2Reader.read inflate (slice buf total (want - total))).run s.inner =
      withState (o.map fun bs =>
        (bs.length, bs ++ (slice buf total (want - total)).drop bs.length)) r) :
    (fillBuf inflate want (fuel + 1) total buf).run s = match o with
      | .error e => .error (.io "qcow2::read" e) { s with inner := r }
      | .ok bs => if bs = [] then .ok (total, buf) { s with inner := r }
        else (fillBuf inflate want fuel (total + bs.length) (overwrite buf total bs)).run
          { s with inner := r } := by
  have hstep : (onReader "qcow2::read"
      (Qcow2Reader.read inflate (slice buf total (want - total)))).run s = _ := onReader_run hrun
  rw [fillBuf, if_neg hmore, EStateM.run_bind, hstep]
  cases o with
  | error e => rfl
  | ok bs =>
    have hle := hbytes bs rfl
    have hbuf : buf.take total ++ (bs ++ (slice buf total (want - total)).drop bs.length) ++
        buf.drop want = overwrite buf total bs := by
      rw [← overwrite_window (show total + bs.length ≤ want by omega)]
      simp [overwrite]
    simp only [Except.map, Except.mapError, withState_ok, hbuf, List.length_eq_zero_iff]
    by_cases hbs : bs = []
    · subst hbs
      simp [overwrite_nil]
    · rw [if_neg hbs, if_neg hbs]

/-- From `p` the loop delivers the stream of the disk, behind what is there. -/
theorem fillBuf_run (S : Serves M cursor) {fuel want total p : Nat} {buf : List UInt8}
    {s : Qcow2Source β} (hs : At cursor L p s) (hfuel : want - total ≤ fuel)
    (hwant : want ≤ buf.length) :
    ∃ s', Standing cursor L s' ∧ (fillBuf inflate want fuel total buf).run s =
      withState (match (L.guestMap.disk M inflate).stream (want - total) p with
        | (bs, none) => .ok (total + bs.length, overwrite buf total bs)
        | (_, some e) => .error (.io "qcow2::read" e)) s' := by
  induction fuel generalizing total p buf s with
  | zero =>
    have hzero : want - total = 0 := by omega
    refine ⟨s, ⟨p, hs⟩, ?_⟩
    simp [fillBuf, hzero, FlatDisk.stream]
  | succ fuel ih =>
    by_cases hdone : want ≤ total
    · have hzero : want - total = 0 := by omega
      refine ⟨s, ⟨p, hs⟩, ?_⟩
      simp [fillBuf, hdone, hzero, FlatDisk.stream]
    · have hpart : (slice buf total (want - total)).length = want - total :=
        length_slice_of_le (by omega)
      obtain ⟨o, r, hrun, hreads, hr⟩ :=
        Qcow2Reader.read_run inflate S hs.1 (slice buf total (want - total))
      rw [hpart] at hreads
      have hbytes : ∀ bs, o = .ok bs → bs.length ≤ want - total := by
        intro bs ho
        subst ho
        exact hreads.ok_bounds.1
      rw [fillBuf_step inflate hdone hbytes hrun]
      cases o with
      | error e =>
        refine ⟨{ s with inner := r }, ⟨p, hr, hs.2⟩, ?_⟩
        rw [FlatDisk.stream_of_error hreads (by omega)]
        rfl
      | ok bs =>
        have hle := hbytes bs rfl
        by_cases hbs : bs = []
        · subst hbs
          refine ⟨{ s with inner := r }, ⟨p, hr, hs.2⟩, ?_⟩
          rw [FlatDisk.stream_of_nil hreads (by omega)]
          simp
        · have hlen := length_overwrite (show total + bs.length ≤ buf.length by omega)
          have hpos : 0 < bs.length := List.length_pos_iff.mpr hbs
          obtain ⟨s', hs', hrest⟩ := ih (show At cursor L (p + bs.length) { s with inner := r } from
            ⟨hr, hs.2⟩) (show want - (total + bs.length) ≤ fuel by omega)
            (show want ≤ (overwrite buf total bs).length by omega)
          refine ⟨s', hs', ?_⟩
          have hsub : want - (total + bs.length) = want - total - bs.length := by omega
          rw [hsub] at hrest
          rw [FlatDisk.stream_of_ok hreads hle]
          simp only [if_neg hbs, hrest]
          cases hrem : (L.guestMap.disk M inflate).stream (want - total - bs.length)
              (p + bs.length) with
          | mk bs' f =>
            cases f with
            | some e => rfl
            | none =>
              simp only [overwrite_append (show total ≤ buf.length by omega), List.length_append,
                Nat.add_assoc]

theorem readAt_computes (S : Serves M cursor) (L : Layout) (offset : Nat) (buf : List UInt8) :
    Computes (Standing cursor L) (readAt inflate offset buf)
      (readAtOf (L.guestMap.disk M inflate) offset buf) := by
  intro s hs
  rcases hs with ⟨p, hs⟩
  have hsize : (L.guestMap.disk M inflate).size = L.virtualDiskSize := rfl
  have hlt := L.virtualDiskSize_lt
  unfold readAtOf
  rw [hsize]
  by_cases hend : L.virtualDiskSize ≤ offset
  · refine ⟨s, ⟨p, hs⟩, ?_⟩
    have havail : s.len - offset = 0 := by
      rw [hs.2]
      omega
    simp [readAt, havail, if_pos hend]
  · have havail : s.len - offset ≠ 0 := by
      rw [hs.2]
      omega
    have hwant : asUsize (min buf.length (s.len - offset)) =
        min buf.length (L.virtualDiskSize - offset) := by
      rw [hs.2]
      exact asUsize_of_lt (by omega)
    obtain ⟨r, hrun, hr⟩ := Qcow2Reader.seek_run hs.1 (.start offset)
    have hseek : (onReader "qcow2::seek" (Qcow2Reader.seek (.start offset))).run s = _ :=
      onReader_run hrun
    rw [if_neg hend]
    by_cases hfar : 2 ^ 63 ≤ offset
    · rw [Qcow2Reader.seekOutcome_far hfar (by omega)] at hr hseek
      refine ⟨{ s with inner := r }, ⟨p, hr, hs.2⟩, ?_⟩
      rw [if_pos hfar]
      simp [readAt, havail, hseek, Except.mapError]
    · rw [Qcow2Reader.seekOutcome_start (by omega)] at hr hseek
      obtain ⟨s', hs', hfill⟩ := fillBuf_run inflate S
        (show At cursor L offset { s with inner := r } from ⟨hr, hs.2⟩)
        (show min buf.length (L.virtualDiskSize - offset) - 0 ≤
          min buf.length (L.virtualDiskSize - offset) by omega)
        (show min buf.length (L.virtualDiskSize - offset) ≤ buf.length by omega)
      refine ⟨s', hs', ?_⟩
      rw [if_neg hfar]
      simp only [readAt, EStateM.run_bind, EStateM.run_get, if_neg havail, hseek, hwant,
        Except.mapError, withState_ok, hfill, Nat.sub_zero, Nat.zero_add]

end Qcow2Source

structure ReadAtCall (κ : Type) where
  client : κ
  offset : Nat
  buf : List UInt8

namespace Qcow2Source

variable {β : Type} [ReadSeek β] {κ : Type}

def serve (inflate : Inflate) :
    Machine (Qcow2Source β) (ReadAtCall κ) (Except VfsError (Nat × List UInt8)) :=
  fun c s => answer (readAt inflate c.offset c.buf) s

variable {M : Medium} {cursor : β → Nat → Prop} {L : Layout}

theorem serve_answer (inflate : Inflate) (S : Serves M cursor) {s : Qcow2Source β}
    (hs : Standing cursor L s) (c : ReadAtCall κ) :
    (serve inflate c s).1 = readAtOf (L.guestMap.disk M inflate) c.offset c.buf ∧
      Standing cursor L (serve inflate c s).2 := by
  obtain ⟨s', hs', hrun⟩ := readAt_computes inflate S L c.offset c.buf s hs
  rw [serve, answer_eq hrun]
  exact ⟨rfl, hs'⟩

theorem serve_run (inflate : Inflate) (S : Serves M cursor) {s : Qcow2Source β}
    (hs : Standing cursor L s) (cs : List (ReadAtCall κ)) :
    ((serve inflate).run cs s).1 =
        cs.map (fun c => readAtOf (L.guestMap.disk M inflate) c.offset c.buf) ∧
      Standing cursor L ((serve inflate).run cs s).2 :=
  Machine.run_of_stateless (I := Standing cursor L) (fun _ c hs => serve_answer inflate S hs c) hs

omit [ReadSeek β] in
theorem new_standing {r : Qcow2Reader β} {p : Nat} (hr : Qcow2Reader.At cursor L p r) :
    Standing cursor L (new r) := ⟨p, hr, by rw [new, ← hr.1]⟩

end Qcow2Source

theorem readAtOf_of_defined {d : FlatDisk IoError UInt8} {offset : Nat} {buf : List UInt8}
    (hsize : d.size < 2 ^ 63) (hd : ∀ i, i < d.size → d.get? i ≠ none) :
    ∃ buf', Qcow2Source.readAtOf d offset buf =
        .ok (min buf.length (d.size - min offset d.size), buf') ∧
      buf'.length = buf.length ∧ ∀ k, buf'[k]? =
        if k < min buf.length (d.size - min offset d.size) then d.get? (offset + k) else buf[k]? := by
  by_cases hend : d.size ≤ offset
  · have hzero : min buf.length (d.size - min offset d.size) = 0 := by omega
    refine ⟨buf, ?_, rfl, ?_⟩
    · rw [Qcow2Source.readAtOf, if_pos hend, hzero]
    · intro k
      rw [hzero, if_neg (by omega)]
  · have hn : min buf.length (d.size - min offset d.size) = min buf.length (d.size - offset) := by
      rw [Nat.min_eq_left (show offset ≤ d.size by omega)]
    rw [hn]
    obtain ⟨n, hn'⟩ : ∃ n, n = min buf.length (d.size - offset) := ⟨_, rfl⟩
    have hfetch : ∀ i, offset ≤ i → i < offset + n →
        d.fetch i = .ok (some ((d.get? i).getD 0)) := by
      intro i _ hi
      obtain ⟨b, hb⟩ := Option.ne_none_iff_exists'.mp (hd i (by omega))
      rw [hb, FlatDisk.get?_eq_some_iff.mp hb, Option.getD_some]
    have hstream := FlatDisk.stream_of_defined (show offset + n ≤ d.size by omega) hfetch
    have hlen : ((List.range' offset n).map fun i => (d.get? i).getD 0).length = n := by simp
    refine ⟨overwrite buf 0 ((List.range' offset n).map fun i => (d.get? i).getD 0), ?_, ?_, ?_⟩
    · rw [Qcow2Source.readAtOf, if_neg hend, if_neg (by omega), ← hn', hstream]
      simp only [hlen]
    · exact length_overwrite (by omega)
    · intro k
      rw [getElem?_overwrite (by omega), hlen, ← hn']
      by_cases hk : k < n
      · obtain ⟨b, hb⟩ := Option.ne_none_iff_exists'.mp (hd (offset + k) (by omega))
        rw [if_pos (by omega), if_pos hk, hb]
        simp [hk, hb]
      · rw [if_neg (by omega), if_neg hk]

/-- On an image all of whose guest bytes are there, every call of every client
returns the guest bytes at its offset, as a source opened for that call alone. -/
theorem read_at_exact_and_independent {κ : Type} (inflate : Inflate) (image : List UInt8)
    {r₀ : Qcow2Reader Cursor} (h : fromBacking (Cursor.mk image 0) = .ok r₀)
    (hsize : r₀.virtualDiskSize < 2 ^ 63)
    (hbytes : ∀ i, i < r₀.virtualDiskSize → guestByte inflate image i ≠ none)
    (cs : List (ReadAtCall κ)) :
    ((Qcow2Source.serve inflate).run cs (.new r₀)).1 =
        cs.map (fun c => (Qcow2Source.serve inflate c (.new r₀)).1) ∧
      ∀ c ∈ cs, ∃ buf', (Qcow2Source.serve inflate c (.new r₀)).1 =
          .ok (min c.buf.length (r₀.virtualDiskSize - min c.offset r₀.virtualDiskSize), buf') ∧
        buf'.length = c.buf.length ∧ ∀ k, buf'[k]? =
          if k < min c.buf.length (r₀.virtualDiskSize - min c.offset r₀.virtualDiskSize) then
            guestByte inflate image (c.offset + k)
          else c.buf[k]? := by
  have S := serves_cursor image
  have hs := Qcow2Source.new_standing (opened_image h).1
  have hget := opened_disk_get? inflate h
  have hanswer := fun c : ReadAtCall κ => (Qcow2Source.serve_answer inflate S hs c).1
  constructor
  · rw [(Qcow2Source.serve_run inflate S hs cs).1]
    exact List.map_congr_left fun c _ => (hanswer c).symm
  · intro c _
    rw [hanswer c, ← hget]
    exact readAtOf_of_defined hsize (by rwa [hget])

theorem read_at_exact_and_independent_sample : ∃ r₀,
    fromBacking (Cursor.mk sampleImage 0) = .ok r₀ ∧
      ((Qcow2Source.serve .ok).run [⟨true, 3, [9, 9]⟩, ⟨false, 0, [9]⟩] (.new r₀)).1 =
        [⟨true, 3, [9, 9]⟩, ⟨false, 0, [9]⟩].map
          (fun c : ReadAtCall Bool => (Qcow2Source.serve .ok c (.new r₀)).1) := by
  obtain ⟨r₀, h⟩ := exists_ok (x := fromBacking (Cursor.mk sampleImage 0)) (by decide)
  have hsize : r₀.virtualDiskSize = 4 := (opened_image h).2.2.trans (by decide)
  have hbytes : ∀ i, i < 4 → guestByte .ok sampleImage i ≠ none := by decide
  exact ⟨r₀, h, (read_at_exact_and_independent .ok sampleImage h (by omega)
    (by rwa [hsize]) _).1⟩

end Qcow2
