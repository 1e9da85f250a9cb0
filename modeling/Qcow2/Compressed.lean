import Qcow2.FlatRuns

/-! Reads of compressed clusters against the rule that the inflated stream fills the
cluster exactly. -/

namespace Qcow2

open StdIo

namespace Qcow2Reader

variable {β : Type} [ReadSeek β] {M : Medium} {cursor : β → Nat → Prop} {L : Layout}
  (inflate : Inflate)

theorem read_compressed (S : Serves M cursor) {p off n : Nat} {r : Qcow2Reader β}
    (hr : At cursor L p r) {buf : List UInt8} (hbuf : buf ≠ []) (hp : p < L.virtualDiskSize)
    (hc : L.guestMap.cluster M p = .ok (.compressed off n)) :
    match inflate (slice M.bytes off n) with
    | .ok _ => ∃ x, (answer (read inflate buf) r).1 = .ok x
    | .error _ => (∃ e, (answer (read inflate buf) r).1 = .error e) ∧
        (answer (read inflate buf) r).2.pos = p := by
  obtain ⟨o, r', hrun, hreads, hr'⟩ := read_run inflate S hr buf
  have hlen : buf.length ≠ 0 := mt List.length_eq_zero_iff.mp hbuf
  have hfetch : (L.guestMap.disk M inflate).fetch p =
      GuestMap.fetchIn M inflate (.compressed off n) (p % L.guestMap.clusterSize) := by
    simp only [GuestMap.disk, hc]
    rfl
  rw [answer_eq hrun]
  cases hi : inflate (slice M.bytes off n) with
  | error e =>
    have he : (L.guestMap.disk M inflate).fetch p = .error (deflateError e) := by
      simp [hfetch, GuestMap.fetchIn, hi, Except.mapError, Except.map]
    have ho := (hreads.error_iff hlen hp _).mpr he
    subst ho
    exact ⟨⟨_, rfl⟩, hr'.2.1⟩
  | ok out =>
    cases o with
    | ok bs => exact ⟨_, rfl⟩
    | error e =>
      have he := (hreads.error_iff hlen hp e).mp rfl
      simp [hfetch, GuestMap.fetchIn, hi, Except.mapError, Except.map] at he

end Qcow2Reader

theorem not_ok_and_error {ε α : Type} {x : Except ε α} (ha : ∃ a, x = .ok a) (he : ∃ e, x = .error e) :
    False := by
  obtain ⟨a, rfl⟩ := ha
  obtain ⟨e, he⟩ := he
  cases he

theorem refused_window {inflate : Inflate} {truncated : List UInt8 → Prop}
    (htruncated : ∀ s, truncated s → ∃ out, inflate s = .ok out) (hempty : inflate [] = .ok [])
    {bytes : List UInt8} {off n : Nat} {e : String} (hi : inflate (slice bytes off n) = .error e) :
    off < bytes.length ∧ ¬ truncated (slice bytes off n) := by
  constructor
  · by_contra hout
    have hnil : slice bytes off n = [] := slice_eq_nil_iff.mpr (.inr (by omega))
    rw [hnil, hempty] at hi
    cases hi
  · intro ht
    obtain ⟨out, hout⟩ := htruncated _ ht
    rw [hout] at hi
    cases hi

/-- `truncated` stands for the streams that end before the decoder is done, on which
it reports success. A read meets the exact-length rule exactly when the window
starts inside the image, is not truncated and, if it inflates, fills the cluster. -/
theorem compressed_read_exact_iff {β : Type} [ReadSeek β] {M : Medium}
    {cursor : β → Nat → Prop} (inflate : Inflate) (truncated : List UInt8 → Prop)
    (htruncated : ∀ s, truncated s → ∃ out, inflate s = .ok out) (hempty : inflate [] = .ok [])
    (S : Serves M cursor) {b : β} (hb : cursor b 0) {r₀ : Qcow2Reader β}
    (h : fromBacking b = .ok r₀) (cs : List Call) :
    let r := ((Qcow2Reader.call inflate).run cs r₀).2
    ∀ off n buf, r.pos < r.virtualDiskSize → buf ≠ [] →
      r.guestMap.cluster M r.pos = .ok (.compressed off n) →
      let w := slice M.bytes off n
      let reply := answer (Qcow2Reader.read inflate buf) r
      ((((∃ x, reply.1 = .ok x) → ∃ out, inflate w = .ok out ∧ out.length = r.clusterSize) ∧
        (M.bytes.length ≤ off ∨ truncated w ∨
            (∃ out, inflate w = .ok out ∧ out.length ≠ r.clusterSize) →
          (∃ e, reply.1 = .error e) ∧ reply.2.pos = r.pos)) ↔
        off < M.bytes.length ∧ ¬ truncated w ∧
          ∀ out, inflate w = .ok out → out.length = r.clusterSize) := by
  intro r off n buf hp hbuf hc w reply
  obtain ⟨p, hr⟩ := Qcow2Reader.call_run_at inflate S (fromBacking_at S hb h).2 cs
  have hr' : Qcow2Reader.At cursor r.toLayout r.pos r := ⟨rfl, rfl, hr.2.2⟩
  have hread := Qcow2Reader.read_compressed inflate S hr' hbuf hp hc
  cases hi : inflate w with
  | error e =>
    rw [show slice M.bytes off n = w from rfl, hi] at hread
    obtain ⟨hin, htr⟩ := refused_window htruncated hempty hi
    constructor
    · intro _
      exact ⟨hin, htr, by simp⟩
    · intro _
      exact ⟨fun hx => (not_ok_and_error hx hread.1).elim, fun _ => hread⟩
  | ok out =>
    rw [show slice M.bytes off n = w from rfl, hi] at hread
    constructor
    · intro h
      rcases h with ⟨-, hbad⟩
      refine ⟨?_, ?_, ?_⟩
      · by_contra hout
        exact not_ok_and_error hread (hbad (.inl (by omega))).1
      · intro ht
        exact not_ok_and_error hread (hbad (.inr (.inl ht))).1
      · intro out' ho
        by_contra hne
        exact not_ok_and_error hread (hbad (.inr (.inr ⟨out', ho, hne⟩))).1
    · intro h
      rcases h with ⟨hin, htr, hlen⟩
      refine ⟨fun _ => ⟨out, rfl, hlen out rfl⟩, ?_⟩
      intro hbad
      rcases hbad with hout | ht | ⟨out', ho, hne⟩
      · omega
      · exact absurd ht htr
      · exact absurd (hlen out' ho) hne

/-- The only data cluster is compressed, its stream past the end of the image. -/
def pastEndStream : List UInt8 :=
  headerBytes 2 9 512 1 72 0 0 ++ beBytes 8 80 ++ beBytes 8 (2 ^ 62 + 4096)

def inflateNothing : Inflate := fun s => if s = [] then .ok [] else .error "corrupt deflate stream"

theorem inflateNothing_truncated (s : List UInt8) (hs : s = []) :
    ∃ out, inflateNothing s = .ok out := by
  subst hs
  exact ⟨[], rfl⟩

set_option maxRecDepth 10000 in
theorem pastEndStream_opened : ∃ r₀, fromBacking (Cursor.mk pastEndStream 0) = .ok r₀ ∧
    r₀.pos = 0 ∧ r₀.virtualDiskSize = 512 ∧ r₀.clusterSize = 512 ∧
    r₀.guestMap.cluster (Medium.memory pastEndStream) 0 = .ok (.compressed 4096 512) ∧
    (answer (Qcow2Reader.read inflateNothing [9, 9]) r₀).1 = .ok (2, [0, 0]) := by
  obtain ⟨r₀, h⟩ := exists_ok (x := fromBacking (Cursor.mk pastEndStream 0)) (by decide)
  have hrun : (fromBacking (Cursor.mk pastEndStream 0)).map (fun r => (r.pos, r.virtualDiskSize,
      r.clusterSize, r.guestMap.cluster (Medium.memory pastEndStream) 0,
      (answer (Qcow2Reader.read inflateNothing [9, 9]) r).1)) =
      .ok (0, 512, 512, .ok (.compressed 4096 512), .ok (2, [0, 0])) := by rfl
  rw [h] at hrun
  simp only [Except.map, Except.ok.injEq, Prod.mk.injEq] at hrun
  exact ⟨r₀, h, hrun⟩

theorem compressed_read_exact_iff_sample : ∃ r₀,
    fromBacking (Cursor.mk pastEndStream 0) = .ok r₀ ∧
      let reply := answer (Qcow2Reader.read inflateNothing [9, 9]) r₀
      ((((∃ x, reply.1 = .ok x) →
          ∃ out, inflateNothing [] = .ok out ∧ out.length = r₀.clusterSize) ∧
        (pastEndStream.length ≤ 4096 ∨ ([] : List UInt8) = [] ∨
            (∃ out, inflateNothing [] = .ok out ∧ out.length ≠ r₀.clusterSize) →
          (∃ e, reply.1 = .error e) ∧ reply.2.pos = r₀.pos)) ↔
        4096 < pastEndStream.length ∧ ¬ ([] : List UInt8) = [] ∧
          ∀ out, inflateNothing [] = .ok out → out.length = r₀.clusterSize) := by
  obtain ⟨r₀, h, hpos, hsize, -, hc, -⟩ := pastEndStream_opened
  refine ⟨r₀, h, ?_⟩
  exact compressed_read_exact_iff inflateNothing (· = []) inflateNothing_truncated rfl
    (serves_cursor pastEndStream) (Cursor.on_start pastEndStream) h []
    4096 512 [9, 9] (show r₀.pos < r₀.virtualDiskSize by omega) (by simp)
    (show r₀.guestMap.cluster _ r₀.pos = _ by rwa [hpos])

theorem compressed_read_fabricates : ∃ r₀, fromBacking (Cursor.mk pastEndStream 0) = .ok r₀ ∧
    r₀.pos < r₀.virtualDiskSize ∧
    r₀.guestMap.cluster (Medium.memory pastEndStream) r₀.pos = .ok (.compressed 4096 512) ∧
    pastEndStream.length ≤ 4096 ∧
    inflateNothing (slice pastEndStream 4096 512) = .ok [] ∧ r₀.clusterSize = 512 ∧
    (answer (Qcow2Reader.read inflateNothing [9, 9]) r₀).1 = .ok (2, [0, 0]) := by
  obtain ⟨r₀, h, hpos, hsize, hcs, hc, hread⟩ := pastEndStream_opened
  exact ⟨r₀, h, by omega, by rwa [hpos], by decide, by decide, hcs, hread⟩

end Qcow2
