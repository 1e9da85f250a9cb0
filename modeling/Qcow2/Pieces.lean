import Qcow2.Source

/-! A buffer filled in pieces: adjacent positioned reads add up to one. -/

namespace Qcow2

open StdIo

namespace Qcow2Source

/-- Calls for the buffers one behind the other, from `offset` on. -/
def pieces {κ : Type} (client : κ) : Nat → List (List UInt8) → List (ReadAtCall κ)
  | _, [] => []
  | offset, buf :: bufs => ⟨client, offset, buf⟩ :: pieces client (offset + buf.length) bufs

/-- What their answers come to: the first that is short or fails ends it, and leaves the
buffers behind it as they were. -/
def gather : List (List UInt8) → List (Except VfsError (Nat × List UInt8)) →
    Except VfsError (Nat × List UInt8)
  | buf :: bufs, .ok (n, out) :: answers =>
    if n < buf.length then .ok (n, out ++ bufs.flatten)
    else (gather bufs answers).map fun x => (n + x.1, out ++ x.2)
  | _ :: _, .error e :: _ => .error e
  | _, _ => .ok (0, [])

theorem readAtOf_eq (d : FlatDisk IoError UInt8) {offset : Nat} (hoff : offset < 2 ^ 63)
    (buf : List UInt8) : readAtOf d offset buf = match d.stream buf.length offset with
      | (bs, none) => .ok (bs.length, overwrite buf 0 bs)
      | (_, some e) => .error (.io "qcow2::read" e) := by
  by_cases hend : d.size ≤ offset
  · rw [readAtOf, if_pos hend, FlatDisk.stream_of_size_le hend]
    simp
  · have hstream := FlatDisk.stream_min (d := d) buf.length offset
    generalize d.stream buf.length offset = whole at hstream ⊢
    obtain ⟨bs, _ | e⟩ := whole
    · rw [readAtOf, if_neg hend, if_neg (by omega), hstream]
    · rw [readAtOf, if_neg hend, if_neg (by omega), hstream]

theorem gather_readAtOf {κ : Type} (client : κ) (d : FlatDisk IoError UInt8)
    {bufs : List (List UInt8)} {offset : Nat} (hfits : offset + bufs.flatten.length < 2 ^ 63) :
    gather bufs ((pieces client offset bufs).map fun c => readAtOf d c.offset c.buf) =
      readAtOf d offset bufs.flatten := by
  induction bufs generalizing offset with
  | nil =>
    rw [readAtOf_eq d (by omega)]
    rfl
  | cons buf bufs ih =>
    simp only [List.flatten_cons, List.length_append] at hfits ⊢
    have hrest := ih (show offset + buf.length + bufs.flatten.length < 2 ^ 63 by omega)
    have hoff : offset < 2 ^ 63 := by omega
    rw [readAtOf_eq d (show offset + buf.length < 2 ^ 63 by omega)] at hrest
    rw [pieces, List.map_cons, readAtOf_eq d hoff buf, readAtOf_eq d hoff, List.length_append]
    rcases (FlatDisk.length_stream_le buf.length offset :
      (d.stream buf.length offset).1.length ≤ _).lt_or_eq with hshort | hfull
    · -- the first piece ends it, and so does it end the whole
      rw [FlatDisk.stream_add_of_short _ hshort]
      generalize d.stream buf.length offset = first at hshort ⊢
      obtain ⟨bs, _ | e⟩ := first
      · have hkeep : overwrite (buf ++ bufs.flatten) 0 bs = overwrite buf 0 bs ++ bufs.flatten := by
          rw [overwrite_zero, overwrite_zero, List.drop_append_of_le_length hshort.le,
            List.append_assoc]
        have hshort' : bs.length < buf.length := hshort
        simp only [gather, if_pos hshort', hkeep]
      · rfl
    · rw [FlatDisk.stream_add_of_full _ hfull]
      have hnone := FlatDisk.stream_full hfull
      generalize d.stream buf.length offset = first at hfull hnone ⊢
      generalize d.stream bufs.flatten.length (offset + buf.length) = rest at hrest ⊢
      obtain ⟨bs, e⟩ := first
      obtain rfl : e = none := hnone
      have hlen : bs.length = buf.length := hfull
      have hwhole : overwrite buf 0 bs = bs := by
        rw [overwrite_zero, hlen, List.drop_length, List.append_nil]
      simp only [gather, if_neg (show ¬ bs.length < buf.length by omega), hwhole, hrest]
      obtain ⟨cs, _ | e⟩ := rest
      · have hdrop : (buf ++ bufs.flatten).drop (bs.length + cs.length) =
            bufs.flatten.drop cs.length := by
          rw [hlen, List.drop_length_add_append]
        simp only [Except.map, overwrite_zero, List.length_append, List.append_assoc, hdrop]
      · rfl

end Qcow2Source

/-- Reading a stretch piece by piece comes to the same as reading it in one call, whatever was
read before, also where the image ends early or a cluster fails. -/
theorem pieces_add_up {β κ : Type} [ReadSeek β] {M : Medium} {cursor : β → Nat → Prop}
    (inflate : Inflate) (S : Serves M cursor) {b : β} (hb : cursor b 0) {r₀ : Qcow2Reader β}
    (h : fromBacking b = .ok r₀) (before : List (ReadAtCall κ)) (client : κ) {offset : Nat}
    {bufs : List (List UInt8)} (hfits : offset + bufs.flatten.length < 2 ^ 63) :
    Qcow2Source.gather bufs ((Qcow2Source.serve inflate).run
        (Qcow2Source.pieces client offset bufs)
        ((Qcow2Source.serve inflate).run before (.new r₀)).2).1 =
      (Qcow2Source.serve inflate ⟨client, offset, bufs.flatten⟩
        ((Qcow2Source.serve inflate).run before (.new r₀)).2).1 := by
  have hnew := Qcow2Source.new_standing (fromBacking_at S hb h).2
  have hs := (Qcow2Source.serve_run inflate S hnew before).2
  rw [(Qcow2Source.serve_run inflate S hs _).1, (Qcow2Source.serve_answer inflate S hs _).1]
  exact Qcow2Source.gather_readAtOf client _ hfits

theorem pieces_add_up_sample : ∃ r₀, fromBacking (Cursor.mk sampleImage 0) = .ok r₀ ∧
    Qcow2Source.gather [[9], [9, 9], [9, 9]] ((Qcow2Source.serve .ok).run
        (Qcow2Source.pieces true 1 [[9], [9, 9], [9, 9]]) (.new r₀)).1 =
      (Qcow2Source.serve .ok ⟨true, 1, [9, 9, 9, 9, 9]⟩ (.new r₀)).1 := by
  obtain ⟨r₀, h⟩ := exists_ok (x := fromBacking (Cursor.mk sampleImage 0)) (by decide)
  exact ⟨r₀, h, pieces_add_up .ok (serves_cursor sampleImage) (Cursor.on_start sampleImage) h [] true
    (by decide)⟩

end Qcow2
