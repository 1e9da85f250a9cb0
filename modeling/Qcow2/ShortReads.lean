import Qcow2.Audit
import Qcow2.SnapshotRefines

/-! What a first read that stops early changes in the three path probes. -/

namespace Qcow2

open StdIo

/-- The refcount order that `seen` bytes of the header lead to. -/
def orderSeen (bytes : List UInt8) (seen : Nat) : Nat :=
  if beAt bytes 4 4 = 3 ∧ 100 ≤ seen then beAt bytes 96 4 else 4

def rtBytes (bytes : List UInt8) : Nat :=
  min (beAt bytes 56 4 * 2 ^ beAt bytes 20 4 / 8) maxL1Entries * 8

/-- The refcount order lies behind the `seen` bytes, differs from the default, and
would have been reported. -/
structure OrderLost (c : Content) (seen : Nat) : Prop where
  cut : seen < 100 ∧ 100 ≤ c.1.length
  version_eq : beAt c.1 4 4 = 3
  accepted : beAt c.1 0 4 = magic ∧ 9 ≤ beAt c.1 20 4 ∧ beAt c.1 20 4 ≤ 20
  order_ne : beAt c.1 96 4 ≠ 4
  loads : 6 < beAt c.1 96 4 ∨ beAt c.1 48 8 = 0 ∨ rtBytes c.1 = 0 ∨
    beAt c.1 48 8 + rtBytes c.1 ≤ c.1.length

namespace RefcountHeader

theorem parse_seen {bytes : List UInt8} {m : Nat} (hm : 72 ≤ m) (hlen : 72 ≤ bytes.length) :
    parse (slice bytes 0 m) = (parse (slice bytes 0 104)).map fun h =>
      { h with refcountOrder := orderSeen bytes (slice bytes 0 m).length } := by
  have hseen := length_slice bytes 0 m
  have hwindow := length_slice bytes 0 104
  have hshort : ¬ (slice bytes 0 m).length < minHeaderSize := by
    rw [minHeaderSize]
    omega
  have hshort' : ¬ (slice bytes 0 104).length < minHeaderSize := by
    rw [minHeaderSize]
    omega
  have hfield : ∀ {n off : Nat}, off + n ≤ 72 →
      beUint n (slice bytes 0 m) off = beUint n (slice bytes 0 104) off :=
    fun ho => (beUint_header hm hlen ho).trans (beUint_header (by omega) hlen ho).symm
  have hversion : beUint 4 (slice bytes 0 104) 4 = beAt bytes 4 4 :=
    beUint_header (by omega) hlen (by omega)
  have horder : (if beUint 4 (slice bytes 0 104) 4 = 3 ∧ 100 ≤ (slice bytes 0 m).length
      then beUint 4 (slice bytes 0 m) 96 else 4) = orderSeen bytes (slice bytes 0 m).length := by
    rw [hversion, orderSeen]
    split_ifs with h
    · rw [beUint_of_le h.2, beAt_window bytes (by omega)]
    · rfl
  simp only [parse, if_neg hshort, if_neg hshort', beU32, beU64]
  simp (disch := omega) only [hfield]
  rw [horder]
  split_ifs <;> rfl

theorem parse_short {bytes : List UInt8} (h : bytes.length < minHeaderSize) :
    parse bytes = .error .fileTooSmall :=
  if_pos h

theorem parse_window {bytes : List UInt8} {h : RefcountHeader} (hp : parse (slice bytes 0 104) = .ok h) :
    beAt bytes 0 4 = magic ∧ 9 ≤ beAt bytes 20 4 ∧ beAt bytes 20 4 ≤ 20 := by
  obtain ⟨-, hmagic, hbits, -⟩ := parse_ok hp
  rw [← hbits]
  exact ⟨hmagic, h.clusterBits_range⟩

theorem order_eq {bytes : List UInt8} {h : RefcountHeader} (hlen : 72 ≤ bytes.length)
    (hp : parse (slice bytes 0 104) = .ok h) :
    h.refcountOrder = orderSeen bytes (slice bytes 0 104).length := by
  have hseen := parse_seen (show 72 ≤ 104 by omega) hlen
  rw [hp] at hseen
  exact congrArg refcountOrder (Except.ok.inj hseen)

theorem table_eq {bytes : List UInt8} {h : RefcountHeader} (hp : parse (slice bytes 0 104) = .ok h) :
    h.refcountTableOffset = beAt bytes 48 8 ∧ h.rtEntries * 8 = rtBytes bytes := by
  obtain ⟨-, -, hbits, -, -, hoff, hclusters⟩ := parse_ok hp
  have hle := tableBytes_le hp
  refine ⟨hoff, ?_⟩
  rw [rtEntries, asUsize_of_lt (by omega), clusterSize, Nat.one_shiftLeft, hclusters, rtBytes, ← hbits]

end RefcountHeader

section Probes

variable {c : Content}

/-- Under another order the report stays the same only where the refcount table cannot
be loaded under either. -/
theorem scanBehind_order_iff (h : RefcountHeader) {order : Nat} (horder : order ≤ 6) :
    (scanBehind (Medium.file c) { h with refcountOrder := order }).map Prod.fst =
        (scanBehind (Medium.file c) h).map Prod.fst ↔
      order = h.refcountOrder ∨ h.refcountOrder ≤ 6 ∧ RtOutside c h := by
  have hout : RtOutside c h ↔ ∃ e, tableIn (Medium.file c) h.refcountTableOffset h.rtEntries =
      .error (.io e) := by
    rw [tableIn_error_iff, RtOutside, Medium.file_bytes]
  have hentries : RefcountHeader.rtEntries { h with refcountOrder := order } = h.rtEntries := rfl
  rw [hout]
  unfold scanBehind
  simp only [hentries, if_neg (show ¬ 6 < order by omega)]
  rcases tableIn_cases (Medium.file c) h.refcountTableOffset h.rtEntries with ⟨e, he⟩ | ⟨t, ht⟩
  · rw [he]
    by_cases hbig : 6 < h.refcountOrder
    · simp only [if_pos hbig, Except.map, reduceCtorEq, false_iff]
      omega
    · simp only [if_neg hbig, Except.map, Except.error.injEq, Qcow2Error.io.injEq, exists_eq', and_true,
        true_iff]
      omega
  · rw [ht]
    simp only [Except.map, reduceCtorEq, exists_false, and_false, or_false]
    constructor
    · intro heq
      split_ifs at heq
      · exact congrArg Qcow2RefcountReport.refcountOrder (Except.ok.inj heq)
      · exact congrArg Qcow2RefcountReport.refcountOrder (Except.ok.inj heq)
    · intro heq
      subst heq
      rw [if_neg (by omega)]

theorem OrderLost.parses {m : Nat} (hlost : OrderLost c m) :
    ∃ h, RefcountHeader.parse (slice c.1 0 104) = .ok h := by
  obtain ⟨hmagic, hbits⟩ := hlost.accepted
  have hversion := hlost.version_eq
  have hlen := hlost.cut.2
  exact (RefcountHeader.parse_isOk_iff (by omega) hmagic).mpr ⟨by omega, hbits⟩

/-- In terms of the whole header: its order is not the default, and no unreadable table
stops the report before it gets there. -/
theorem orderLost_iff {h : RefcountHeader} {m : Nat} (hp : RefcountHeader.parse (slice c.1 0 104) = .ok h)
    (hlen : 72 ≤ c.1.length) (hcut : m < 100) :
    OrderLost c m ↔ h.refcountOrder ≠ 4 ∧ ¬ (h.refcountOrder ≤ 6 ∧ RtOutside c h) := by
  have horder := RefcountHeader.order_eq hlen hp
  have hwindow := length_slice c.1 0 104
  obtain ⟨hoff, hbytes⟩ := RefcountHeader.table_eq hp
  rw [RtOutside, hoff, hbytes]
  by_cases hthree : beAt c.1 4 4 = 3 ∧ 100 ≤ (slice c.1 0 104).length
  · rw [orderSeen, if_pos hthree] at horder
    rw [horder]
    constructor
    · intro hlost
      have hloads := hlost.loads
      exact ⟨hlost.order_ne, by omega⟩
    · intro hkept
      exact ⟨⟨hcut, by omega⟩, hthree.1, RefcountHeader.parse_window hp, hkept.1, by omega⟩
  · rw [orderSeen, if_neg hthree] at horder
    constructor
    · intro hlost
      have hlong := hlost.cut.2
      exact absurd ⟨hlost.version_eq, by omega⟩ hthree
    · intro hkept
      exact absurd horder hkept.1

variable {β : Type} [FileSource β] {cursor : β → Nat → Prop} {b b' : β} {m : Nat}

theorem refcountReport_seen_iff (S : ServesFile c cursor)
    (hread : (ReadSeek.read 104).run b = .ok (slice c.1 0 m) b') (hb' : cursor b' m)
    (hm : 72 ≤ m ∧ m ≤ 104 ∧ m ≤ c.1.length) :
    refcountReport b = refcountReport (File.opened c) ↔ ¬ OrderLost c m := by
  have hlen : 72 ≤ c.1.length := by omega
  have hseen : (slice c.1 0 m).length = m := length_slice_of_le (by omega)
  have hwindow := length_slice c.1 0 104
  rw [refcountReport, refcountScan_run S.toServes hread ⟨m, hb'⟩, refcountReport_eq, scanOf_eq,
    Medium.file_bytes, RefcountHeader.parse_seen hm.1 hlen, hseen]
  cases hp : RefcountHeader.parse (slice c.1 0 104) with
  | error e =>
    simp only [Except.map, Except.bind, true_iff]
    intro hlost
    obtain ⟨h, hh⟩ := hlost.parses
    rw [hp] at hh
    cases hh
  | ok h =>
    simp only [Except.map, Except.bind]
    by_cases hcut : m < 100
    · have hfour : orderSeen c.1 m = 4 := if_neg (by omega)
      rw [hfour, orderLost_iff hp hlen hcut]
      refine (scanBehind_order_iff h (by omega)).trans ?_
      rw [not_and_or, not_ne_iff, not_not, eq_comm]
    · have hsame : orderSeen c.1 m = h.refcountOrder := by
        rw [RefcountHeader.order_eq hlen hp, orderSeen, orderSeen]
        exact if_congr (by omega) rfl rfl
      rw [hsame]
      exact iff_of_true rfl fun hl => hcut hl.cut.1

/-- A first read that the source ends early is harmless unless it ends in the part of
the header that both formats share, or between that and a refcount order worth reporting. -/
theorem probes_agree_iff (S : ServesFile c cursor) {bs : List UInt8} (hb : cursor b 0)
    (hread : (ReadSeek.read 104).run b = .ok bs b') :
    (inspect b = inspect (File.opened c) ∧ snapshots b = snapshots (File.opened c) ∧
        refcountReport b = refcountReport (File.opened c)) ↔
      c.1.length < 72 ∨ 72 ≤ bs.length ∧ ¬ OrderLost c bs.length := by
  obtain ⟨bs', b'', hcur, hrun, hpre, -⟩ := S.read 104 hb
  rw [hread] at hrun
  obtain ⟨rfl, rfl⟩ := EStateM.Result.ok.inj hrun
  have hle := hpre.length_le
  have hwindow := length_slice c.1 0 104
  have hin : bs.length ≤ 104 ∧ bs.length ≤ c.1.length := by
    rw [Medium.file_bytes] at hle
    omega
  have hbs : slice c.1 0 bs.length = bs := by
    have hprefix : bs <+: c.1 := hpre.trans (List.take_prefix 104 c.1)
    exact (List.prefix_iff_eq_take.mp hprefix).symm
  have hinspect : inspect b = inspect (File.opened c) := by
    rw [inspect_run S.toServes hb, inspect_opened]
  rw [Nat.zero_add] at hcur
  rw [← hbs] at hread
  have hsnapshots := snapshots_run S hread (by rwa [hbs])
  have hmin : minHeaderSize = 72 := rfl
  rw [hbs] at hsnapshots
  by_cases hlong : 72 ≤ bs.length
  · rw [if_neg (by omega), ← snapshots_eq] at hsnapshots
    have hreport := refcountReport_seen_iff S hread hcur ⟨hlong, hin⟩
    constructor
    · rintro ⟨-, -, h⟩
      exact .inr ⟨hlong, hreport.mp h⟩
    · rintro (hshort | ⟨-, hkept⟩)
      · omega
      · exact ⟨hinspect, hsnapshots, hreport.mpr hkept⟩
  · rw [if_pos (by omega)] at hsnapshots
    by_cases hshort : c.1.length < 72
    · have hreport : refcountReport b = refcountReport (File.opened c) := by
        rw [refcountReport, refcountScan_run S.toServes hread ⟨_, hcur⟩, hbs, refcountReport_eq,
          scanOf_eq, Medium.file_bytes, RefcountHeader.parse_short (by omega),
          RefcountHeader.parse_short (by omega)]
      have hsmall : snapshots (File.opened c) = .error .fileTooSmall := by
        rw [snapshots_eq, snapshotsIn, if_pos (by omega)]
      exact iff_of_true ⟨hinspect, hsnapshots.trans hsmall.symm, hreport⟩ (.inl hshort)
    · have hne : snapshots (File.opened c) ≠ .error .fileTooSmall := by
        rw [snapshots_eq, snapshotsIn, if_neg (by omega)]
        split_ifs <;> simp
      refine iff_of_false ?_ (by omega)
      rintro ⟨-, h, -⟩
      exact hne (h.symm.trans hsnapshots)

end Probes

/-- One-byte refcounts, which only a version-3 header can declare. -/
def narrowImage : Content := ⟨headerBytes 3 9 512 0 0 0 0 ++ headerTail 0 3, by simp⟩

theorem probes_agree_iff_sample :
    inspect (ShortFile.opened narrowImage fun _ => 100) = inspect (File.opened narrowImage) ∧
      snapshots (ShortFile.opened narrowImage fun _ => 100) = snapshots (File.opened narrowImage) ∧
      refcountReport (ShortFile.opened narrowImage fun _ => 100) =
        refcountReport (File.opened narrowImage) := by
  have hseen : (slice narrowImage.1 0 100).length = 100 := by decide +kernel
  have hread : (ReadSeek.read 104).run (ShortFile.opened narrowImage fun _ => 100) =
      .ok (slice narrowImage.1 0 100) ⟨⟨narrowImage, 100⟩, fun _ => 100, 1⟩ := rfl
  refine (probes_agree_iff (servesFile_short narrowImage)
    (ShortFile.on_opened narrowImage _) hread).mpr (.inr ⟨by omega, ?_⟩)
  intro hlost
  have hcut := hlost.cut
  omega

/-- Split after 96 bytes, the header reads as one with the default order. -/
theorem early_read_hides_order :
    ServesFile narrowImage (ShortFile.On narrowImage) ∧
      ShortFile.On narrowImage (ShortFile.opened narrowImage fun _ => 96) 0 ∧
      ∃ r r', refcountReport (File.opened narrowImage) = .ok r ∧ r.refcountOrder = 3 ∧
        refcountReport (ShortFile.opened narrowImage fun _ => 96) = .ok r' ∧ r'.refcountOrder = 4 := by
  obtain ⟨r, hr, horder⟩ := exists_ok_map (x := refcountReport (File.opened narrowImage))
    (f := Qcow2RefcountReport.refcountOrder) (b := 3) (by decide +kernel)
  obtain ⟨r', hr', horder'⟩ := exists_ok_map
    (x := refcountReport (ShortFile.opened narrowImage fun _ => 96))
    (f := Qcow2RefcountReport.refcountOrder) (b := 4) (by decide +kernel)
  exact ⟨servesFile_short _, ShortFile.on_opened _ _, r, r', hr, horder, hr', horder'⟩

end Qcow2
