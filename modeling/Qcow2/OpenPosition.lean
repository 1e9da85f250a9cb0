import Qcow2.FlatRuns

/-! What opening an image depends on when the caller has moved the source before. -/

namespace Qcow2

open StdIo

namespace Qcow2Reader

variable {β : Type} [ReadSeek β] {M : Medium} {cursor : β → Nat → Prop}
  {got : Nat → Nat → List UInt8} {L : Layout} (inflate : Inflate)

/-- What the `m` bytes at `j` of a cluster come to when reads of the source come to `got`. -/
def clusterOut (M : Medium) (got : Nat → Nat → List UInt8) (L : Layout) (j m : Nat) :
    ClusterRef → Except IoError (List UInt8)
  | .normal off => .ok (got (off + j) m)
  | .compressed off n => (((inflate (slice M.bytes off n)).mapError deflateError).map
      (padTo L.clusterSize)).map fun out => slice out j m
  | _ => .ok (List.replicate m 0)

theorem readCluster_steady (S : ServesSteadily M cursor got) (L : Layout) (p j m : Nat)
    {c : ClusterRef} (hc : c.Bounded) (hj : j < 2 ^ 62) :
    Computes (At cursor L p) (readCluster inflate j m c) (clusterOut inflate M got L j m c) := by
  cases c with
  | unallocated => exact Computes.pure _
  | zeroCluster => exact Computes.pure _
  | normal off =>
    have hoff : off < 2 ^ 62 := hc
    intro r hr
    obtain ⟨rfl, rfl, q, hq⟩ := hr
    obtain ⟨b₁, hb₁, hseek⟩ := S.seek_ok (off + j) hq (M.seekable_of_lt _ (by omega))
    obtain ⟨bs, b₂, hb₂, hread, -⟩ := S.read m hb₁
    obtain ⟨b₃, hgot⟩ := S.read_got m hb₁
    rw [hread] at hgot
    cases hgot
    refine ⟨{ r with backing := b₂ }, ⟨rfl, rfl, _, hb₂⟩, ?_⟩
    simp only [EStateM.run] at hseek hread
    simp [readCluster, clusterOut, onBacking, zoom, EStateM.run, bind, EStateM.bind, hseek, hread]
  | compressed off n =>
    have hoff : off < 2 ^ 63 := hc
    exact (decompressCluster_computes inflate S.toServes L p n hoff).map _

theorem resolve_steady (S : ServesSteadily M cursor got) (L : Layout) {p : Nat}
    (hp : p < L.virtualDiskSize) (m : Nat) :
    Computes (At cursor L p) (clusterRefFor p >>= readCluster inflate (p % L.guestMap.clusterSize) m)
      ((L.guestMap.cluster M p).bind (clusterOut inflate M got L (p % L.guestMap.clusterSize) m)) := by
  have hdisk := L.virtualDiskSize_lt
  have hj : p % L.guestMap.clusterSize < 2 ^ 62 := by
    have hlt := Nat.mod_lt p L.clusterSize_pos
    have hle := L.clusterSize_le
    rw [L.guestMap_clusterSize]
    omega
  have href := clusterRefFor_computes S.toServes L p (show p < 2 ^ 64 by omega)
  cases hc : L.guestMap.cluster M p with
  | error e =>
    rw [hc] at href
    exact href.bind_error
  | ok c =>
    rw [hc] at href
    exact href.bind_ok (readCluster_steady inflate S L p _ m (GuestMap.cluster_bounded hc) hj)

theorem readBytes_steady (S : ServesSteadily M cursor got) (L : Layout) (p n : Nat) :
    ∃ o, ∀ r, At cursor L p r → ∃ r', (readBytes inflate n).run r = withState o r' ∧
      At cursor L (FlatDisk.after p o) r' := by
  by_cases hend : L.virtualDiskSize ≤ p ∨ n = 0
  · refine ⟨.ok [], ?_⟩
    intro r hr
    obtain ⟨rfl, rfl, hst⟩ := hr
    exact ⟨r, by simp [readBytes, hend], rfl, rfl, hst⟩
  · have hp : p < L.virtualDiskSize := by omega
    have hn : n ≠ 0 := by omega
    refine ⟨(L.guestMap.cluster M p).bind
      (clusterOut inflate M got L (p % L.guestMap.clusterSize) (readLength L p n)), ?_⟩
    intro r hr
    obtain ⟨r', ⟨hl, hpos, hst⟩, hrun⟩ := resolve_steady inflate S L hp (readLength L p n) r hr
    exact ⟨_, readBytes_run inflate hr hp hn hrun, hl, by rw [← hpos], hst⟩

theorem answer_read [Target] {r r' : Qcow2Reader β} {o : Except IoError (List UInt8)}
    {buf : List UInt8} (h : (readBytes inflate buf.length).run r = withState o r') :
    answer (read inflate buf) r = (o.map fun bs => (bs.length, bs ++ buf.drop bs.length), r') := by
  apply answer_eq
  rw [read, EStateM.run_bind, h]
  cases o <;> rfl

theorem read_steady (S : ServesSteadily M cursor got) (L : Layout) (p : Nat) (buf : List UInt8) :
    ∃ o q, ∀ r, At cursor L p r → ∃ r', answer (read inflate buf) r = (o, r') ∧ At cursor L q r' := by
  obtain ⟨o, ho⟩ := readBytes_steady inflate S L p buf.length
  refine ⟨o.map fun bs => (bs.length, bs ++ buf.drop bs.length), FlatDisk.after p o, ?_⟩
  intro r hr
  obtain ⟨r', hrun, hr'⟩ := ho r hr
  exact ⟨r', answer_read inflate hrun, hr'⟩

/-- Readers with the same fixed fields at the same position answer alike, wherever
their backings stand. -/
theorem run_steady (S : ServesSteadily M cursor got) {p : Nat} {r₁ r₂ : Qcow2Reader β}
    (hr₁ : At cursor L p r₁) (hr₂ : At cursor L p r₂) (cs : List Call) :
    ((call inflate).run cs r₁).1 = ((call inflate).run cs r₂).1 := by
  apply Machine.run_eq_of_bisim (R := fun r₁ r₂ => ∃ p, At cursor L p r₁ ∧ At cursor L p r₂) _
    ⟨p, hr₁, hr₂⟩
  intro r₁ r₂ c hr
  obtain ⟨p, hr₁, hr₂⟩ := hr
  cases c with
  | seek s =>
    obtain ⟨r₁', hrun₁, hr₁'⟩ := seek_run hr₁ s
    obtain ⟨r₂', hrun₂, hr₂'⟩ := seek_run hr₂ s
    rw [call, call, answer_eq hrun₁, answer_eq hrun₂]
    exact ⟨rfl, _, hr₁', hr₂'⟩
  | read buf =>
    obtain ⟨o, q, ho⟩ := read_steady inflate S L p buf
    obtain ⟨r₁', hrun₁, hr₁'⟩ := ho r₁ hr₁
    obtain ⟨r₂', hrun₂, hr₂'⟩ := ho r₂ hr₂
    rw [call, call, hrun₁, hrun₂]
    exact ⟨rfl, q, hr₁', hr₂'⟩

end Qcow2Reader

section Opening

variable {β : Type} [ReadSeek β] (inflate : Inflate)

/-- Two attempts to open that fail with the same kind of error or give readers that
answer every history of calls alike. -/
def SameOpening (x y : Except Qcow2Error (Qcow2Reader β)) : Prop :=
  (∃ e e', x = .error e ∧ y = .error e' ∧ e.ctorIdx = e'.ctorIdx) ∨
    ∃ r r', x = .ok r ∧ y = .ok r' ∧ r.virtualDiskSize = r'.virtualDiskSize ∧
      ∀ cs, ((Qcow2Reader.call inflate).run cs r).1 = ((Qcow2Reader.call inflate).run cs r').1

variable {M : Medium} {cursor : β → Nat → Prop} {got : Nat → Nat → List UInt8}

theorem sameOpening_of_parse_eq (S : ServesSteadily M cursor got) {b₁ b₂ : β} {p q : Nat}
    (hb₁ : cursor b₁ p) (hb₂ : cursor b₂ q)
    (h : Qcow2Header.parse (slice M.bytes p 104) = Qcow2Header.parse (slice M.bytes q 104)) :
    SameOpening inflate (fromBacking b₁) (fromBacking b₂) := by
  obtain ⟨b₁', hst₁, heq₁⟩ := fromBacking_from S.toServes hb₁
  obtain ⟨b₂', hst₂, heq₂⟩ := fromBacking_from S.toServes hb₂
  have hsame : openedAt M p = openedAt M q := by
    rw [openedAt, openedAt, h]
  rw [heq₁, heq₂, hsame]
  cases openedAt M q with
  | error e => exact .inl ⟨e, e, rfl, rfl, rfl⟩
  | ok L =>
    have hr₁ : Qcow2Reader.At cursor L 0 { L with backing := b₁', pos := 0 } := ⟨rfl, rfl, hst₁⟩
    have hr₂ : Qcow2Reader.At cursor L 0 { L with backing := b₂', pos := 0 } := ⟨rfl, rfl, hst₂⟩
    exact .inr ⟨_, _, rfl, rfl, rfl, Qcow2Reader.run_steady inflate S hr₁ hr₂⟩

theorem parse_fileTooSmall_iff {data : List UInt8} :
    Qcow2Header.parse data = .error .fileTooSmall ↔ data.length < 72 := by
  constructor
  · intro h
    by_contra hlong
    simp only [Qcow2Header.parse, minHeaderSize, if_neg hlong] at h
    split_ifs at h <;> cases h
  · exact fun h => if_pos h

theorem openedAt_fileTooSmall_iff {p : Nat} :
    openedAt M p = .error .fileTooSmall ↔ M.bytes.length < p + 72 := by
  have hwindow := length_slice M.bytes p 104
  have hparse : Qcow2Header.parse (slice M.bytes p 104) = .error .fileTooSmall ↔ _ :=
    parse_fileTooSmall_iff
  have hshort : (slice M.bytes p 104).length < 72 ↔ M.bytes.length < p + 72 := by omega
  rw [← hshort, ← hparse, openedAt]
  cases hp : Qcow2Header.parse (slice M.bytes p 104) with
  | error e => simp
  | ok hdr =>
    simp only [reduceCtorEq, iff_false]
    split_ifs
    · simp
    · cases M.readExactAt hdr.l1TableOffset (hdr.l1Size * 8) <;>
        simp [Except.mapError, Except.map]

theorem eq_fileTooSmall {e : Qcow2Error} (h : e.ctorIdx = Qcow2Error.fileTooSmall.ctorIdx) :
    e = .fileTooSmall := by
  cases e <;> first | rfl | cases h

/-- Opening is the same from everywhere only in an image too short for any header;
from two given positions it is the same where the windows at them decode alike. -/
theorem opening_ignores_position_iff (S : ServesSteadily M cursor got) {b₀ : β} {p₀ : Nat}
    (hb₀ : cursor b₀ p₀) :
    ((∀ b₁ b₂ p q, cursor b₁ p → cursor b₂ q →
        SameOpening inflate (fromBacking b₁) (fromBacking b₂)) ↔ M.bytes.length < 72) ∧
      ∀ b₁ b₂ p q, cursor b₁ p → cursor b₂ q →
        Qcow2Header.parse (slice M.bytes p 104) = Qcow2Header.parse (slice M.bytes q 104) →
          SameOpening inflate (fromBacking b₁) (fromBacking b₂) := by
  refine ⟨?_, fun b₁ b₂ p q hb₁ hb₂ h => sameOpening_of_parse_eq inflate S hb₁ hb₂ h⟩
  constructor
  · intro hall
    by_contra hlong
    -- one opening at the start, one at the last byte
    obtain ⟨b₁, hb₁, -⟩ := S.seek_ok 0 hb₀ (M.seekable_of_lt 0 (by omega))
    obtain ⟨b₂, hb₂, -⟩ := S.seek_ok (M.bytes.length - 1) hb₀ (M.seekable_of_lt _ (by omega))
    obtain ⟨b₁', -, heq₁⟩ := fromBacking_from S.toServes hb₁
    obtain ⟨b₂', -, heq₂⟩ := fromBacking_from S.toServes hb₂
    have hlast : openedAt M (M.bytes.length - 1) = .error .fileTooSmall :=
      openedAt_fileTooSmall_iff.mpr (by omega)
    have hstart : openedAt M 0 ≠ .error .fileTooSmall :=
      mt openedAt_fileTooSmall_iff.mp (by omega)
    have hsame := hall b₁ b₂ _ _ hb₁ hb₂
    rw [heq₁, heq₂, hlast] at hsame
    rcases hsame with ⟨e, e', he, he', hkind⟩ | ⟨r, r', -, hr', -⟩
    · cases he'
      obtain rfl := eq_fileTooSmall hkind
      cases ho : openedAt M 0 with
      | error e =>
        rw [ho] at he
        exact hstart (by rw [ho]; exact congrArg _ (Except.error.inj he))
      | ok L =>
        rw [ho] at he
        cases he
    · cases hr'
  · intro hshort b₁ b₂ p q hb₁ hb₂
    apply sameOpening_of_parse_eq inflate S hb₁ hb₂
    have hp := length_slice M.bytes p 104
    have hq := length_slice M.bytes q 104
    rw [parse_fileTooSmall_iff.mpr (by omega), parse_fileTooSmall_iff.mpr (by omega)]

end Opening

theorem opening_ignores_position_iff_sample :
    ((∀ b₁ b₂ p q, Cursor.On sampleImage b₁ p → Cursor.On sampleImage b₂ q →
        SameOpening .ok (fromBacking b₁) (fromBacking b₂)) ↔ sampleImage.length < 72) ∧
      ∀ b₁ b₂ p q, Cursor.On sampleImage b₁ p → Cursor.On sampleImage b₂ q →
        Qcow2Header.parse (slice sampleImage p 104) = Qcow2Header.parse (slice sampleImage q 104) →
          SameOpening .ok (fromBacking b₁) (fromBacking b₂) :=
  opening_ignores_position_iff .ok (servesSteadily_cursor sampleImage) (Cursor.on_start sampleImage)

set_option maxRecDepth 4000 in
theorem sniffed_image_rejected : (∃ r, fromBacking (Cursor.mk sampleImage 0) = .ok r) ∧
    fromBacking (Cursor.mk sampleImage 4) = .error .badMagic ∧
    ¬ SameOpening .ok (fromBacking (Cursor.mk sampleImage 0))
      (fromBacking (Cursor.mk sampleImage 4)) := by
  obtain ⟨r, hr⟩ := exists_ok (x := fromBacking (Cursor.mk sampleImage 0)) (by decide)
  have hsniffed : fromBacking (Cursor.mk sampleImage 4) = .error .badMagic := by rfl
  refine ⟨⟨r, hr⟩, hsniffed, ?_⟩
  intro h
  rw [hr, hsniffed] at h
  rcases h with ⟨e, e', he, -⟩ | ⟨r₁, r₂, -, hr₂, -⟩
  · cases he
  · cases hr₂

end Qcow2
