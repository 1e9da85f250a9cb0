import Qcow2.FlatRuns

/-! Two readers of one image over backings that split their bytes differently. -/

namespace Qcow2

open StdIo

namespace Qcow2Reader

variable {β : Type} [ReadSeek β] (inflate : Inflate)

/-- Read with the buffers `bufs k`, `bufs (k + 1)`, … until `Ok(0)` or an error: all
bytes and the error, if any. `none` when the fuel does not reach the end. -/
def drain (bufs : Nat → List UInt8) :
    Nat → Nat → Qcow2Reader β → Option (List UInt8 × Option IoError)
  | 0, _, _ => none
  | fuel + 1, k, r =>
    match answer (read inflate (bufs k)) r with
    | (.error e, _) => some ([], some e)
    | (.ok (n, buf), r') =>
      if n = 0 then some ([], none)
      else (drain bufs fuel (k + 1) r').map fun rest => (buf.take n ++ rest.1, rest.2)

variable {M : Medium} {cursor : β → Nat → Prop} {L : Layout}

/-- Draining ends, and delivers the rest of the guest disk up to its first fault or
missing byte. -/
theorem drain_eq (S : Serves M cursor) {bufs : Nat → List UInt8} (hbufs : ∀ k, bufs k ≠ [])
    {fuel k p : Nat} {r : Qcow2Reader β} (hr : At cursor L p r)
    (hfuel : L.virtualDiskSize - p < fuel) :
    drain inflate bufs fuel k r =
      some ((L.guestMap.disk M inflate).stream (L.virtualDiskSize - p) p) := by
  induction fuel generalizing k p r with
  | zero => omega
  | succ fuel ih =>
    have hlen : (bufs k).length ≠ 0 := mt List.length_eq_zero_iff.mp (hbufs k)
    obtain ⟨o, r', hrun, hreads, hr'⟩ := read_run inflate S hr (bufs k)
    rw [drain, answer_eq hrun]
    cases o with
    | error e =>
      by_cases hp : p < L.virtualDiskSize
      · rw [FlatDisk.stream_of_error hreads (by omega)]
        rfl
      · have hend := hreads.at_end (.inr (show L.virtualDiskSize ≤ p by omega))
        cases hend
    | ok bs =>
      by_cases hbs : bs = []
      · subst hbs
        rw [FlatDisk.stream_of_nil hreads hlen]
        rfl
      · have hpos : 0 < bs.length := List.length_pos_iff.mpr hbs
        have hin : p + bs.length ≤ L.virtualDiskSize := hreads.ok_bounds.2.1 hbs
        have hrest := ih (k := k + 1) hr' (show L.virtualDiskSize - (p + bs.length) < fuel by omega)
        rw [FlatDisk.stream_of_ok hreads (by omega), Nat.sub_sub]
        simp only [Except.map, if_neg hpos.ne', List.take_left, hrest, Option.map_some]
        rfl

end Qcow2Reader

/-- Two backings over one image accept it together and read as one disk, whatever
they return on each call. -/
theorem chunking_is_invisible {β₁ β₂ : Type} [ReadSeek β₁] [ReadSeek β₂]
    {cursor₁ : β₁ → Nat → Prop} {cursor₂ : β₂ → Nat → Prop} (inflate : Inflate)
    {image : List UInt8} (S₁ : Serves (Medium.memory image) cursor₁)
    (S₂ : Serves (Medium.memory image) cursor₂) {b₁ : β₁} {b₂ : β₂} (hb₁ : cursor₁ b₁ 0)
    (hb₂ : cursor₂ b₂ 0) :
    (∃ e, fromBacking b₁ = .error e ∧ fromBacking b₂ = .error e) ∨
      ∃ r₁ r₂, fromBacking b₁ = .ok r₁ ∧ fromBacking b₂ = .ok r₂ ∧
        r₁.virtualDiskSize = r₂.virtualDiskSize ∧
        ∀ s, (answer (Qcow2Reader.seek s) r₁).1 = (answer (Qcow2Reader.seek s) r₂).1 ∧
          ∀ bufs₁ bufs₂ : Nat → List UInt8, (∀ k, bufs₁ k ≠ []) → (∀ k, bufs₂ k ≠ []) →
            ∀ fuel, r₁.virtualDiskSize < fuel → ∃ x,
              Qcow2Reader.drain inflate bufs₁ fuel 0 (answer (Qcow2Reader.seek s) r₁).2 = some x ∧
              Qcow2Reader.drain inflate bufs₂ fuel 0 (answer (Qcow2Reader.seek s) r₂).2 = some x := by
  obtain ⟨b₁', hst₁, heq₁⟩ := fromBacking_eq S₁ hb₁
  obtain ⟨b₂', hst₂, heq₂⟩ := fromBacking_eq S₂ hb₂
  rw [heq₁, heq₂]
  cases openedLayout (Medium.memory image) with
  | error e => exact .inl ⟨e, rfl, rfl⟩
  | ok L =>
    refine .inr ⟨_, _, rfl, rfl, rfl, ?_⟩
    intro s
    obtain ⟨r₁, hrun₁, hr₁⟩ := Qcow2Reader.seek_run
      (show Qcow2Reader.At cursor₁ L 0 { L with backing := b₁', pos := 0 } from ⟨rfl, rfl, hst₁⟩) s
    obtain ⟨r₂, hrun₂, hr₂⟩ := Qcow2Reader.seek_run
      (show Qcow2Reader.At cursor₂ L 0 { L with backing := b₂', pos := 0 } from ⟨rfl, rfl, hst₂⟩) s
    rw [answer_eq hrun₁, answer_eq hrun₂]
    refine ⟨rfl, ?_⟩
    intro bufs₁ bufs₂ hbufs₁ hbufs₂ fuel hfuel
    have hfuel' : L.virtualDiskSize -
        Qcow2Reader.seekPos 0 (Qcow2Reader.seekOutcome L.virtualDiskSize 0 s) < fuel := by
      have hsize : L.virtualDiskSize < fuel := hfuel
      omega
    exact ⟨_, Qcow2Reader.drain_eq inflate S₁ hbufs₁ hr₁ hfuel',
      Qcow2Reader.drain_eq inflate S₂ hbufs₂ hr₂ hfuel'⟩

theorem chunking_is_invisible_sample : ∃ r₁ r₂,
    fromBacking (Cursor.mk sampleImage 0) = .ok r₁ ∧
      fromBacking (Chunked.mk sampleImage (· % 3) 0 0) = .ok r₂ ∧
      r₁.virtualDiskSize = r₂.virtualDiskSize ∧ ∃ x,
        Qcow2Reader.drain .ok (fun _ => [9, 9]) 5 0 (answer (Qcow2Reader.seek (.start 1)) r₁).2 =
          some x ∧
        Qcow2Reader.drain .ok (fun _ => [9]) 5 0 (answer (Qcow2Reader.seek (.start 1)) r₂).2 =
          some x := by
  obtain ⟨r, hr⟩ := exists_ok (x := fromBacking (Cursor.mk sampleImage 0)) (by decide)
  have hsize : r.virtualDiskSize = 4 := (opened_image hr).2.2.trans (by decide)
  have h := chunking_is_invisible .ok (serves_cursor sampleImage)
    (serves_chunked sampleImage (· % 3)) (Cursor.on_start sampleImage)
    (show Chunked.On sampleImage _ (Chunked.mk sampleImage (· % 3) 0 0) 0 from ⟨rfl, rfl, rfl⟩)
  rcases h with ⟨e, he, -⟩ | ⟨r₁, r₂, h₁, h₂, hsame, hseek⟩
  · rw [hr] at he
    cases he
  · obtain rfl : r = r₁ := Except.ok.inj (hr.symm.trans h₁)
    obtain ⟨-, hdrain⟩ := hseek (.start 1)
    exact ⟨r, r₂, hr, h₂, hsame, hdrain _ _ (by simp) (by simp) 5 (by omega)⟩

end Qcow2
