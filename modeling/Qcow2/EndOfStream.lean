import Qcow2.Source

/-! Reads that return no byte before the end of the guest disk, and positioned reads
that fall short: exactly those that meet a host byte past the end of the image. -/

namespace Qcow2

open StdIo

namespace GuestMap

/-- The guest byte at `p` lies in an uncompressed cluster, past the end of the image. -/
def HostMissing (g : GuestMap) (M : Medium) (p : Nat) : Prop :=
  ∃ o, g.cluster M p = .ok (.normal o) ∧ M.bytes.length ≤ o + p % g.clusterSize

variable {g : GuestMap} {M : Medium} {p : Nat}

theorem fetch_eq_none_iff (inflate : Inflate) : (g.disk M inflate).fetch p = .ok none ↔ g.HostMissing M p := by
  have hfetch : (g.disk M inflate).fetch p =
      g.cluster M p >>= fun c => fetchIn M inflate c (p % g.clusterSize) := rfl
  rw [hfetch, HostMissing]
  cases hc : g.cluster M p with
  | error e => simp [bind, Except.bind]
  | ok c =>
    cases c with
    | unallocated => simp [bind, Except.bind, fetchIn]
    | zeroCluster => simp [bind, Except.bind, fetchIn]
    | compressed off n =>
      cases hi : inflate (slice M.bytes off n) <;>
        simp [bind, Except.bind, fetchIn, hi, Except.mapError, Except.map]
    | normal o => simp [bind, Except.bind, fetchIn]

end GuestMap

namespace Qcow2Reader

variable {β : Type} [ReadSeek β] {M : Medium} {cursor : β → Nat → Prop} {L : Layout}
  (inflate : Inflate)

theorem read_progress_iff (S : Serves M cursor) {p : Nat} {r : Qcow2Reader β}
    (hr : At cursor L p r) {buf : List UInt8} (hbuf : buf ≠ []) (hp : p < L.virtualDiskSize) :
    ((∃ e, (answer (read inflate buf) r).1 = .error e) ∨
      ∃ n buf', (answer (read inflate buf) r).1 = .ok (n, buf') ∧ 1 ≤ n) ↔
        ¬ L.guestMap.HostMissing M p := by
  obtain ⟨o, r', hrun, hreads, -⟩ := read_run inflate S hr buf
  have hlen : buf.length ≠ 0 := mt List.length_eq_zero_iff.mp hbuf
  rw [answer_eq hrun, ← GuestMap.fetch_eq_none_iff inflate,
    ← hreads.nil_iff hlen hp]
  cases o with
  | error e => simp [Except.map]
  | ok bs =>
    have hone : 1 ≤ bs.length ↔ bs ≠ [] := List.length_pos_iff
    simp [Except.map, hone]

end Qcow2Reader

theorem readAtOf_complete_iff {g : GuestMap} {M : Medium} (inflate : Inflate) (offset : Nat)
    (buf : List UInt8) :
    ((∃ e, Qcow2Source.readAtOf (g.disk M inflate) offset buf = .error e) ∨
      ∃ buf', Qcow2Source.readAtOf (g.disk M inflate) offset buf =
        .ok (min buf.length (g.size - min offset g.size), buf')) ↔
      (2 ^ 63 ≤ offset ∨ ∀ q, offset ≤ q → q < offset + min buf.length (g.size - offset) →
        g.HostMissing M q → ∃ q' e, offset ≤ q' ∧ q' < q ∧
          (g.disk M inflate).fetch q' = .error e) := by
  have hsize : (g.disk M inflate).size = g.size := rfl
  unfold Qcow2Source.readAtOf
  rw [hsize]
  by_cases hend : g.size ≤ offset
  · have hzero : min buf.length (g.size - min offset g.size) = 0 := by omega
    rw [if_pos hend, hzero]
    constructor
    · intro _
      right
      intro q hq hq'
      omega
    · intro _
      exact .inr ⟨buf, rfl⟩
  · rw [if_neg hend]
    by_cases hfar : 2 ^ 63 ≤ offset
    · rw [if_pos hfar]
      exact ⟨fun _ => .inl hfar, fun _ => .inl ⟨_, rfl⟩⟩
    · rw [if_neg hfar, Nat.min_eq_left (show offset ≤ g.size by omega)]
      have hshort := FlatDisk.stream_short_iff (d := g.disk M inflate)
        (show offset + min buf.length (g.size - offset) ≤ (g.disk M inflate).size by omega)
      simp only [hfar, false_or, ← GuestMap.fetch_eq_none_iff inflate]
      rw [← hshort]
      cases (g.disk M inflate).stream (min buf.length (g.size - offset)) offset with
      | mk bs f => cases f <;> simp

/-- In every state its calls lead an opened reader to, and for every positioned read
after any others, the stream ends early exactly at a missing host byte. -/
theorem reads_end_early_iff {β κ : Type} [ReadSeek β] {M : Medium} {cursor : β → Nat → Prop}
    (inflate : Inflate) (S : Serves M cursor) {b : β} (hb : cursor b 0) {r₀ : Qcow2Reader β}
    (h : fromBacking b = .ok r₀) (cs : List Call) :
    let r := ((Qcow2Reader.call inflate).run cs r₀).2
    (∀ buf, r.pos < r.virtualDiskSize → buf ≠ [] →
      (((∃ e, (answer (Qcow2Reader.read inflate buf) r).1 = .error e) ∨
          ∃ n buf', (answer (Qcow2Reader.read inflate buf) r).1 = .ok (n, buf') ∧ 1 ≤ n) ↔
        ¬ r.guestMap.HostMissing M r.pos)) ∧
    ∀ (rs : List (ReadAtCall κ)) (offset : Nat) (buf : List UInt8),
      let s := ((Qcow2Source.serve inflate).run rs (.new r)).2
      ((∃ e, (answer (Qcow2Source.readAt inflate offset buf) s).1 = .error e) ∨
          ∃ buf', (answer (Qcow2Source.readAt inflate offset buf) s).1 =
            .ok (min buf.length (s.len - min offset s.len), buf')) ↔
        (2 ^ 63 ≤ offset ∨
          ∀ q, offset ≤ q → q < offset + min buf.length (r.virtualDiskSize - offset) →
            r.guestMap.HostMissing M q → ∃ q' e, offset ≤ q' ∧ q' < q ∧
              (r.guestMap.disk M inflate).fetch q' = .error e) := by
  intro r
  obtain ⟨p, hr⟩ := Qcow2Reader.call_run_at inflate S (fromBacking_at S hb h).2 cs
  have hL : r.toLayout = r₀.toLayout := hr.1
  have hpos : r.pos = p := hr.2.1
  rw [← hL] at hr
  constructor
  · intro buf hp hbuf
    rw [hpos] at hp ⊢
    exact Qcow2Reader.read_progress_iff inflate S hr hbuf hp
  · intro rs offset buf s
    have hs : Qcow2Source.Standing cursor r.toLayout s :=
      (Qcow2Source.serve_run inflate S (Qcow2Source.new_standing hr) rs).2
    obtain ⟨q, hq⟩ := hs
    obtain ⟨s', -, hrun⟩ := Qcow2Source.readAt_computes inflate S r.toLayout offset buf s ⟨q, hq⟩
    rw [answer_eq hrun, hq.2]
    exact readAtOf_complete_iff inflate offset buf

theorem reads_end_early_iff_sample : ∃ r₀, fromBacking (Cursor.mk sampleImage 0) = .ok r₀ ∧
    ∀ buf, r₀.pos < r₀.virtualDiskSize → buf ≠ [] →
      (((∃ e, (answer (Qcow2Reader.read .ok buf) r₀).1 = .error e) ∨
          ∃ n buf', (answer (Qcow2Reader.read .ok buf) r₀).1 = .ok (n, buf') ∧ 1 ≤ n) ↔
        ¬ r₀.guestMap.HostMissing (Medium.memory sampleImage) r₀.pos) := by
  obtain ⟨r₀, h⟩ := exists_ok (x := fromBacking (Cursor.mk sampleImage 0)) (by decide)
  exact ⟨r₀, h, (reads_end_early_iff (κ := Unit) .ok (serves_cursor sampleImage)
    (Cursor.on_start sampleImage) h []).1⟩

/-- The only data cluster lies past the end of the image. -/
def pastEndImage : List UInt8 := headerBytes 2 9 512 1 72 0 0 ++ beBytes 8 80 ++ beBytes 8 4096

set_option maxRecDepth 10000 in
theorem reads_end_early : ∃ r₀, fromBacking (Cursor.mk pastEndImage 0) = .ok r₀ ∧
    r₀.pos < r₀.virtualDiskSize ∧
    (answer (Qcow2Reader.read .ok [9]) r₀).1 = .ok (0, [9]) ∧
    (answer (Qcow2Source.readAt .ok 0 [9]) (.new r₀)).1 = .ok (0, [9]) ∧
    ¬ ((∃ e, (answer (Qcow2Reader.read .ok [9]) r₀).1 = .error e) ∨
      ∃ n buf', (answer (Qcow2Reader.read .ok [9]) r₀).1 = .ok (n, buf') ∧ 1 ≤ n) := by
  obtain ⟨r₀, h⟩ := exists_ok (x := fromBacking (Cursor.mk pastEndImage 0)) (by decide)
  have hrun : (fromBacking (Cursor.mk pastEndImage 0)).map (fun r => (r.pos, r.virtualDiskSize,
      (answer (Qcow2Reader.read .ok [9]) r).1,
      (answer (Qcow2Source.readAt .ok 0 [9]) (.new r)).1)) =
      .ok (0, 512, .ok (0, [9]), .ok (0, [9])) := by rfl
  rw [h] at hrun
  simp only [Except.map, Except.ok.injEq, Prod.mk.injEq] at hrun
  obtain ⟨hpos, hsize, hread, hreadAt⟩ := hrun
  exact ⟨r₀, h, by omega, hread, hreadAt, by simp [hread]⟩

end Qcow2
