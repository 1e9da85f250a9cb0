import Qcow2.Extensions
import Qcow2.OffsetFields
import Qcow2.RefcountWidths
import Qcow2.Targets

/-! The header inspection and the refcount report on targets whose `usize` has 32 bits, against the
same on 64-bit ones. -/

namespace Qcow2

open StdIo

section Header

variable {data : List UInt8}

/-- A record of the backing format whose stated size carries its end past 32 bits. -/
def Overlong (data : List UInt8) : Prop :=
  ∃ p, beU32 data p = extBackingFormat ∧ 2 ^ 32 ≤ p + 8 + beU32 data (p + 4)

theorem checkedAdd_target32_of_lt {x y : Nat} (h : x + y < 2 ^ 32) :
    @checkedAdd target32 x y = some (x + y) := if_pos h

theorem checkedAdd_target32_of_le {x y : Nat} (h : 2 ^ 32 ≤ x + y) :
    @checkedAdd target32 x y = none := if_neg (Nat.not_lt.mpr h)

theorem getRange_of_length_lt {start stop : Nat} (h : data.length < stop) :
    getRange data start stop = none := if_neg (by omega)

theorem range_outside [Target] {off size : Nat} {f : List UInt8 → Option String}
    (hout : data.length < off + size) : ((usizeTryFrom off).bind fun start =>
      (checkedAdd start size).bind fun stop => (getRange data start stop).bind f) = none := by
  refine Option.bind_eq_none_iff.mpr fun start hstart => ?_
  have hoff : start = off := by
    unfold usizeTryFrom at hstart
    split_ifs at hstart
    exact (Option.some.inj hstart).symm
  refine Option.bind_eq_none_iff.mpr fun stop hstop => ?_
  rw [getRange_of_length_lt (by rw [checkedAdd_eq_some hstop, hoff]; exact hout), Option.bind_none]

theorem backingFileName_target32 (hdata : data.length < 2 ^ 31) :
    (@backingFileName target32 data) = backingFileName data := by
  have hsize : beU32 data 16 < 2 ^ 32 := beUint_lt 4 data 16
  have hoff : beU64 data 8 < 2 ^ 64 := beUint_lt 8 data 8
  unfold backingFileName
  simp only [Option.bind_eq_bind]
  by_cases hnone : beU64 data 8 = 0 ∨ beU32 data 16 = 0
  · simp [hnone]
  · rw [if_neg hnone, if_neg hnone]
    have hcap : min (beU32 data 16) maxBackingLen ≤ 4096 := Nat.min_le_right _ _
    by_cases hnear : beU64 data 8 < 2 ^ 31
    · have hstart32 : @usizeTryFrom target32 (beU64 data 8) = some (beU64 data 8) :=
        if_pos (show beU64 data 8 < 2 ^ 32 by omega)
      have hstart : usizeTryFrom (beU64 data 8) = some (beU64 data 8) := if_pos hoff
      rw [hstart32, hstart]
      simp only [Option.bind_some]
      rw [checkedAdd_target32_of_lt (by omega), checkedAdd_of_lt (by omega)]
    · rw [@range_outside _ target32 _ _ _ (by omega), range_outside (by omega)]

/-- The walk takes a record whose end fits as the 64-bit walk does, and stops at one whose end does
not, where only a record of the backing format could still have given something. -/
theorem scanExtensions_target32 (hdata : data.length < 2 ^ 31) (fuel pos : Nat) :
    (∀ s, @scanExtensions target32 data fuel pos = some s → scanExtensions data fuel pos = some s) ∧
      (¬ Overlong data → @scanExtensions target32 data fuel pos = scanExtensions data fuel pos) := by
  induction fuel generalizing pos with
  | zero => exact ⟨fun s hs => hs, fun _ => rfl⟩
  | succ fuel ih =>
    have hsize : beU32 data (pos + 4) < 2 ^ 32 := beUint_lt 4 data (pos + 4)
    unfold scanExtensions
    simp only [Option.bind_eq_bind]
    by_cases hend : beU32 data pos = extEnd
    · simp [hend]
    · have hin : pos + 4 ≤ data.length := by
        by_contra hout
        exact hend (if_neg hout)
      rw [if_neg hend, if_neg hend, checkedAdd_target32_of_lt (by omega), checkedAdd_of_lt (by omega)]
      simp only [Option.bind_some]
      rw [checkedAdd_of_lt (x := pos + 8) (by omega)]
      simp only [Option.bind_some]
      by_cases hfits : pos + 8 + beU32 data (pos + 4) < 2 ^ 32
      · rw [checkedAdd_target32_of_lt hfits]
        simp only [Option.bind_some]
        by_cases hformat : beU32 data pos = extBackingFormat
        · have hcap : min (beU32 data (pos + 4)) maxBackingLen ≤ beU32 data (pos + 4) :=
            Nat.min_le_left _ _
          rw [if_pos hformat, if_pos hformat, checkedAdd_target32_of_lt (by omega),
            checkedAdd_of_lt (by omega)]
          exact ⟨fun s hs => hs, fun _ => rfl⟩
        · rw [if_neg hformat, if_neg hformat, checkedAdd_target32_of_lt (by omega),
            checkedAdd_of_lt (by omega)]
          simp only [Option.bind_some]
          by_cases hnext : pos + 8 + (beU32 data (pos + 4) + 7) / 8 * 8 < 2 ^ 32
          · rw [checkedAdd_target32_of_lt hnext, checkedAdd_of_lt (by omega)]
            simp only [Option.bind_some]
            split_ifs
            · exact ⟨fun s hs => hs, fun _ => rfl⟩
            · exact ih _
          · rw [checkedAdd_target32_of_le (by omega), checkedAdd_of_lt (by omega)]
            simp only [Option.bind_some, Option.bind_none]
            rw [if_pos (.inr (by omega))]
            refine ⟨?_, fun _ => rfl⟩
            intro s hs
            cases hs
      · rw [checkedAdd_target32_of_le (by omega)]
        simp only [Option.bind_none]
        refine ⟨fun s hs => (by cases hs), fun hlong => ?_⟩
        have hformat : beU32 data pos ≠ extBackingFormat :=
          fun hformat => hlong ⟨pos, hformat, by omega⟩
        rw [if_neg hformat, checkedAdd_of_lt (by omega)]
        simp only [Option.bind_some]
        rw [checkedAdd_of_lt (by omega)]
        simp only [Option.bind_some]
        rw [if_pos (.inl (by omega))]

/-- On a 32-bit target the inspector finds the same header facts, but for a backing format that it
may miss; it misses none whose record states a size that fits. -/
theorem inspect_on_32_bits (hdata : data.length ≤ 8192) :
    (∀ e, @Qcow2Info.parse target32 data = .error e ↔ Qcow2Info.parse data = .error e) ∧
      ∀ i, Qcow2Info.parse data = .ok i → ∃ format,
        @Qcow2Info.parse target32 data = .ok { i with backingFormat := format } ∧
        (∀ s, format = some s → i.backingFormat = some s) ∧
        (¬ Overlong data → format = i.backingFormat) := by
  have hname : @backingFileName target32 data = backingFileName data :=
    backingFileName_target32 (by omega)
  have hformat : ∀ version, (∀ s, @backingFormatName target32 data version = some s →
      backingFormatName data version = some s) ∧ (¬ Overlong data →
        @backingFormatName target32 data version = backingFormatName data version) :=
    fun version => scanExtensions_target32 (by omega) 64 _
  unfold Qcow2Info.parse
  simp only [hname]
  by_cases hshort : data.length < minHeaderSize
  · rw [if_pos hshort, if_pos hshort]
    exact ⟨fun e => Iff.rfl, fun i hi => (nomatch hi)⟩
  · rw [if_neg hshort, if_neg hshort]
    by_cases hmagic : beU32 data 0 ≠ magic
    · rw [if_pos hmagic, if_pos hmagic]
      exact ⟨fun e => Iff.rfl, fun i hi => (nomatch hi)⟩
    · rw [if_neg hmagic, if_neg hmagic]
      by_cases hone : beU32 data 4 = 1
      · rw [if_pos hone, if_pos hone]
        refine ⟨fun e => Iff.rfl, fun i hi => ?_⟩
        cases hi
        exact ⟨none, rfl, fun s hs => hs, fun _ => rfl⟩
      · rw [if_neg hone, if_neg hone]
        by_cases hversion : 2 ≤ beU32 data 4 ∧ beU32 data 4 ≤ 3
        · rw [if_neg (not_not.mpr hversion), if_neg (not_not.mpr hversion)]
          refine ⟨fun e => ⟨fun he => (nomatch he), fun he => (nomatch he)⟩, fun i hi => ?_⟩
          cases hi
          exact ⟨_, rfl, hformat _⟩
        · rw [if_pos hversion, if_pos hversion]
          exact ⟨fun e => Iff.rfl, fun i hi => (nomatch hi)⟩

/-- A format record that states all of 32 bits as its size, before 4096 bytes to take it from. -/
def overlongWindow : List UInt8 :=
  headerBytes 2 9 512 0 0 0 0 ++
    (beBytes 4 extBackingFormat ++ beBytes 4 (2 ^ 32 - 1) ++ List.replicate 4096 0x41)

theorem inspect_on_32_bits_sample : ∃ i, Qcow2Info.parse overlongWindow = .ok i ∧
    i.backingFormat.isSome = true ∧
    @Qcow2Info.parse target32 overlongWindow = .ok { i with backingFormat := none } := by
  obtain ⟨i, hi, hsome⟩ := exists_ok_map (x := Qcow2Info.parse overlongWindow)
    (f := fun i => i.backingFormat.isSome) (b := true) (by decide +kernel)
  obtain ⟨i', hi', hnone⟩ := exists_ok_map (x := @Qcow2Info.parse target32 overlongWindow)
    (f := fun i => i.backingFormat.isSome) (b := false) (by decide +kernel)
  obtain ⟨format, hformat, -⟩ := (inspect_on_32_bits (by decide +kernel)).2 i hi
  obtain rfl := Except.ok.inj (hi'.symm.trans hformat)
  cases format with
  | none => exact ⟨i, hi, hsome, hformat⟩
  | some s => cases hnone

end Header

/-- The cluster whose refcount a 32-bit target looks up in place of the refcount of `k`: the table
index is cut to 32 bits. -/
def wrappedCluster (perBlock k : Nat) : Nat := k / perBlock % 2 ^ 32 * perBlock + k % perBlock

theorem wrappedCluster_div {perBlock : Nat} (hper : 0 < perBlock) (k : Nat) :
    wrappedCluster perBlock k / perBlock = k / perBlock % 2 ^ 32 := by
  rw [wrappedCluster, Nat.mul_comm, Nat.mul_add_div hper, Nat.div_eq_of_lt (Nat.mod_lt _ hper),
    Nat.add_zero]

theorem wrappedCluster_mod (perBlock k : Nat) : wrappedCluster perBlock k % perBlock = k % perBlock := by
  rw [wrappedCluster, Nat.mul_comm, Nat.mul_add_mod, Nat.mod_mod]

theorem wrappedCluster_le (perBlock k : Nat) : wrappedCluster perBlock k ≤ k := by
  calc wrappedCluster perBlock k
      ≤ k / perBlock * perBlock + k % perBlock :=
        Nat.add_le_add_right (Nat.mul_le_mul_right _ (Nat.mod_le _ _)) _
    _ = k := by rw [Nat.mul_comm, Nat.div_add_mod]

theorem wrappedCluster_of_lt {perBlock k : Nat} (h : k / perBlock < 2 ^ 32) :
    wrappedCluster perBlock k = k := by
  rw [wrappedCluster, Nat.mod_eq_of_lt h, Nat.mul_comm, Nat.div_add_mod]

section Lookup

variable {β : Type} [ReadSeek β]

theorem refcountOf_target32 (refcountTable : List Nat) {order clusterSize k : Nat} :
    (@refcountOf β _ target32 refcountTable k (1 <<< order) clusterSize) =
      refcountOf refcountTable (wrappedCluster (refcountsPerBlock order clusterSize) k) (1 <<< order)
        clusterSize := by
  unfold refcountOf
  by_cases hzero : clusterSize * 8 / 1 <<< order = 0
  · simp only [if_pos hzero]
  · have hper : clusterSize * 8 / 1 <<< order = refcountsPerBlock order clusterSize := by
      rw [refcountsPerBlock, Nat.one_shiftLeft]
    have hcut : @asUsize target32 (k / refcountsPerBlock order clusterSize) =
        k / refcountsPerBlock order clusterSize % 2 ^ 32 := rfl
    have hlt : k / refcountsPerBlock order clusterSize % 2 ^ 32 < 2 ^ 64 :=
      (Nat.mod_lt _ (by positivity)).trans (by norm_num)
    rw [hper] at hzero ⊢
    simp only [if_neg hzero, hcut, wrappedCluster_div (Nat.pos_of_ne_zero hzero), wrappedCluster_mod,
      asUsize_of_lt hlt]

end Lookup

theorem countP_add_of_disjoint {α : Type} {p q r : α → Prop} [DecidablePred p] [DecidablePred q]
    [DecidablePred r] {as : List α} (h : ∀ a, p a ↔ q a ∨ r a) (hdisjoint : ∀ a, q a → ¬ r a) :
    as.countP (fun a => decide (p a)) =
      as.countP (fun a => decide (q a)) + as.countP (fun a => decide (r a)) := by
  induction as with
  | nil => rfl
  | cons a as ih =>
    rw [List.countP_cons, List.countP_cons, List.countP_cons, ih]
    simp only [decide_eq_true_eq]
    by_cases hq : q a
    · rw [if_pos ((h a).mpr (.inl hq)), if_pos hq, if_neg (hdisjoint a hq)]
      omega
    · by_cases hr : r a
      · rw [if_pos ((h a).mpr (.inr hr)), if_neg hq, if_pos hr]
        omega
      · rw [if_neg (mt (h a).mp (not_or.mpr ⟨hq, hr⟩)), if_neg hq, if_neg hr]
        omega

section Report

variable {M : Medium}

/-- On a 32-bit target the cluster at `o` passes for unreferenced: its index in the refcount table
wraps around to a field of zero. -/
def Misread (M : Medium) (refcountTable : List Nat) (order clusterSize o : Nat) : Prop :=
  2 ^ 32 ≤ o / clusterSize / refcountsPerBlock order clusterSize ∧
    refcountIn M refcountTable order clusterSize
      (wrappedCluster (refcountsPerBlock order clusterSize) (o / clusterSize)) = some 0

instance (refcountTable : List Nat) (order clusterSize : Nat) :
    DecidablePred (Misread M refcountTable order clusterSize) :=
  fun _ => inferInstanceAs (Decidable (_ ∧ _))

/-- A table within the cap has no entry that far, so a 64-bit target finds no refcount there. -/
theorem refcountIn_of_far {refcountTable : List Nat} {order clusterSize k : Nat}
    (hlen : refcountTable.length ≤ 2 ^ 20)
    (hfar : 2 ^ 32 ≤ k / refcountsPerBlock order clusterSize) :
    refcountIn M refcountTable order clusterSize k = none := by
  rw [refcountsPerBlock] at hfar
  have hnone : refcountTable[k / (clusterSize * 8 / 2 ^ order)]? = none :=
    List.getElem?_eq_none (by omega)
  simp only [refcountIn, hnone, Option.bind_none, ite_self]

theorem countP_wrapped {refcountTable : List Nat} (hlen : refcountTable.length ≤ 2 ^ 20)
    (order clusterSize : Nat) (hosts : List Nat) :
    hosts.countP (fun o => decide (refcountIn M refcountTable order clusterSize
        (wrappedCluster (refcountsPerBlock order clusterSize) (o / clusterSize)) = some 0)) =
      hosts.countP (fun o => decide
        (refcountIn M refcountTable order clusterSize (o / clusterSize) = some 0)) +
      hosts.countP (fun o => decide (Misread M refcountTable order clusterSize o)) := by
  apply countP_add_of_disjoint
  · intro o
    by_cases hfar : 2 ^ 32 ≤ o / clusterSize / refcountsPerBlock order clusterSize
    · rw [refcountIn_of_far hlen hfar, Misread, and_iff_right hfar]
      simp
    · rw [wrappedCluster_of_lt (by omega), Misread]
      simp only [hfar, false_and, or_false]
  · intro o ho hmisread
    rw [refcountIn_of_far hlen hmisread.1] at ho
    cases ho

theorem refcountOf_target32_computes {β : Type} [ReadSeek β] {cursor : β → Nat → Prop}
    (S : Serves M cursor) (refcountTable : List Nat) {order : Nat} (horder : order ≤ 6)
    (clusterSize : Nat) {k : Nat} (hk : k < 2 ^ 64) :
    Computes (Serves.Standing cursor)
      (@refcountOf β _ target32 refcountTable k (1 <<< order) clusterSize)
      (.ok (refcountIn M refcountTable order clusterSize
        (wrappedCluster (refcountsPerBlock order clusterSize) k))) := by
  rw [refcountOf_target32]
  exact refcountOf_computes S refcountTable horder clusterSize
    ((wrappedCluster_le _ _).trans_lt hk)

/-- The report behind an accepted header on a 32-bit target that reads the same table. -/
def scanBehind32 (M : Medium) (h : RefcountHeader) : Except Qcow2Error (Qcow2RefcountReport × List Nat) :=
  if 6 < h.refcountOrder then .ok (h.report 0 0, [])
  else
    (tableIn M h.refcountTableOffset h.rtEntries).map fun refcountTable =>
      let hosts := candidates M h.clusterSize ((tableIn M h.l1TableOffset h.l1Entries).toOption.getD [])
      let seen := hosts.take maxClustersScanned
      (h.report (min hosts.length (maxClustersScanned + 1)) (seen.countP fun o =>
        refcountIn M refcountTable h.refcountOrder h.clusterSize
          (wrappedCluster (refcountsPerBlock h.refcountOrder h.clusterSize) (o / h.clusterSize)) =
            some 0), seen)

theorem refcountScan_target32 {c : Content} {h : RefcountHeader}
    (hp : RefcountHeader.parse (slice c.1 0 104) = .ok h)
    (hrt : @RefcountHeader.rtEntries h target32 = h.rtEntries) :
    outcome ((@refcountScan File _ target32).run (File.opened c)) =
      scanBehind32 (Medium.file c) h := by
  have hwindow := length_slice_le c.1 0 104
  have hstand : Serves.Standing (File.On c) ⟨c, (slice c.1 0 104).length⟩ :=
    ⟨(slice c.1 0 104).length, rfl, rfl, by omega⟩
  have hio : (io (ReadSeek.read 104)).run (File.opened c) =
      .ok (slice c.1 0 104) ⟨c, (slice c.1 0 104).length⟩ :=
    run_io (o := .ok (slice c.1 0 104)) (File.read_opened c 104)
  unfold refcountScan
  simp only [EStateM.run_bind, hio, run_fromResult, hp, withState_ok, hrt, scanBehind32]
  by_cases hbig : 6 < h.refcountOrder
  · simp only [if_pos hbig]
    rfl
  · simp only [if_neg hbig]
    have hcs : @asUsize target32 (h.clusterSize / 8) = h.clusterSize / 8 := by
      have hle := h.clusterSize_bounds.2
      exact @asUsize_of_width target32 le_rfl _ (by omega)
    have htable := readU64TableChecked_computes (serves_file c) h.refcountTableOffset h.rtEntries
    have hl1 := readU64Table_computes (serves_file c) h.l1TableOffset h.l1Entries
    cases ht : tableIn (Medium.file c) h.refcountTableOffset h.rtEntries with
    | error e =>
      rw [ht] at htable
      exact htable.bind_error.outcome_eq hstand
    | ok refcountTable =>
      rw [ht] at htable
      have hwalk := @scanL1_computes_of _ _ _ _ target32 (serves_file c) _ _ _ _ hcs
        (fun k hk => refcountOf_target32_computes (serves_file c) refcountTable
          (show h.refcountOrder ≤ 6 by omega) h.clusterSize hk)
        ((tableIn (Medium.file c) h.l1TableOffset h.l1Entries).toOption.getD []) ⟨0, 0, []⟩
      rw [account_eq _ (show 0 ≤ maxClustersScanned by omega)] at hwalk
      simp only [Nat.zero_add, Nat.sub_zero, List.nil_append] at hwalk
      have hreport := hwalk.map fun acc =>
        (h.report acc.allocatedClusters acc.orphanClusters, acc.lookups)
      exact (htable.bind_ok (hl1.bind_ok hreport)).outcome_eq hstand

/-- The clusters among `hosts` that a 32-bit target takes for unreferenced by mistake. -/
def misread (M : Medium) (h : RefcountHeader) (hosts : List Nat) : Nat :=
  hosts.countP fun o => decide (Misread M
    ((tableIn M h.refcountTableOffset h.rtEntries).toOption.getD []) h.refcountOrder h.clusterSize o)

def overcount (n : Nat) (report : Qcow2RefcountReport) : Qcow2RefcountReport :=
  { report with orphanClusters := report.orphanClusters + n }

theorem scanBehind32_eq (M : Medium) (h : RefcountHeader) :
    scanBehind32 M h = (scanBehind M h).map fun s => (overcount (misread M h s.2) s.1, s.2) := by
  unfold scanBehind32 scanBehind misread
  by_cases hbig : 6 < h.refcountOrder
  · simp only [if_pos hbig]
    rfl
  · simp only [if_neg hbig]
    have hlen := length_tableIn_le M h.refcountTableOffset h.rtEntries
    have hcap : h.rtEntries ≤ 2 ^ 20 := Nat.min_le_right _ _
    cases ht : tableIn M h.refcountTableOffset h.rtEntries with
    | error e => rfl
    | ok refcountTable =>
      rw [ht] at hlen
      have hlen' : refcountTable.length ≤ 2 ^ 20 := hlen.trans hcap
      simp only [Except.map, countP_wrapped hlen']
      rfl

end Report

theorem rtEntries_target32 {h : RefcountHeader}
    (hsmall : h.refcountTableClusters * h.clusterSize < 2 ^ 35) :
    @RefcountHeader.rtEntries h target32 = h.rtEntries := by
  have hlt : h.refcountTableClusters * h.clusterSize / 8 < 2 ^ 32 := by omega
  rw [RefcountHeader.rtEntries, RefcountHeader.rtEntries,
    @asUsize_of_width target32 le_rfl _ hlt, asUsize_of_lt (by omega)]

/-- Where every refcount block covers enough, no index wraps around. -/
theorem misread_eq_zero {M : Medium} {h : RefcountHeader} {hosts : List Nat}
    (hhosts : ∀ o ∈ hosts, o < 2 ^ 56)
    (hwide : 2 ^ 24 ≤ h.clusterSize * refcountsPerBlock h.refcountOrder h.clusterSize) :
    misread M h hosts = 0 := by
  refine List.countP_eq_zero.mpr fun o ho => ?_
  simp only [decide_eq_true_eq]
  intro hmisread
  have hlt : o / h.clusterSize / refcountsPerBlock h.refcountOrder h.clusterSize < 2 ^ 32 := by
    rw [Nat.div_div_eq_div_mul]
    refine Nat.div_lt_of_lt_mul ((hhosts o ho).trans_le ?_)
    calc 2 ^ 56 = 2 ^ 24 * 2 ^ 32 := by norm_num
      _ ≤ _ := Nat.mul_le_mul_right _ hwide
  exact absurd hmisread.1 (by omega)

theorem host_lt {M : Medium} {clusterSize o : Nat} {l1Table : List Nat}
    (ho : o ∈ candidates M clusterSize l1Table) : o < 2 ^ 56 := by
  simp only [candidates, List.mem_flatMap] at ho
  obtain ⟨w, -, ho⟩ := ho
  split_ifs at ho
  · cases ho
  · obtain ⟨e, -, he⟩ := List.mem_filterMap.mp ho
    have hlt : e % 2 ^ 56 < 2 ^ 56 := Nat.mod_lt _ (by positivity)
    have hle := Nat.div_mul_le_self (e % 2 ^ 56) (2 ^ 9)
    unfold hostOf at he
    split_ifs at he
    rw [entryOffset, Option.some.injEq] at he
    omega

theorem scanned_lt {M : Medium} {h : RefcountHeader} {s : Qcow2RefcountReport × List Nat}
    (hs : scanBehind M h = .ok s) : ∀ o ∈ s.2, o < 2 ^ 56 := by
  unfold scanBehind at hs
  by_cases hbig : 6 < h.refcountOrder
  · rw [if_pos hbig] at hs
    obtain rfl := Except.ok.inj hs
    exact fun o ho => nomatch ho
  · rw [if_neg hbig] at hs
    cases ht : tableIn M h.refcountTableOffset h.rtEntries with
    | error e =>
      rw [ht] at hs
      cases hs
    | ok refcountTable =>
      rw [ht] at hs
      obtain rfl := Except.ok.inj hs
      exact fun o ho => host_lt (List.mem_of_mem_take ho)

/-- Behind a header whose refcount table is not out of proportion, a report on a 32-bit target
differs from the 64-bit one only by the clusters it accuses by mistake, whose index in the table
wraps around to a field of zero. Where every refcount block covers enough there are none. -/
theorem refcount_report_on_32_bits {c : Content} {h : RefcountHeader}
    (hp : RefcountHeader.parse (slice c.1 0 104) = .ok h)
    (hsmall : h.refcountTableClusters * h.clusterSize < 2 ^ 35) :
    (@refcountReport File _ target32 (File.opened c)) =
        (outcome (refcountScan.run (File.opened c))).map
          (fun s => overcount (misread (Medium.file c) h s.2) s.1) ∧
      (2 ^ 24 ≤ h.clusterSize * refcountsPerBlock h.refcountOrder h.clusterSize →
        (@refcountReport File _ target32 (File.opened c)) = refcountReport (File.opened c)) := by
  have hscan : outcome (refcountScan.run (File.opened c)) = scanBehind (Medium.file c) h := by
    rw [refcountScan_outcome, scanOf_eq, Medium.file_bytes, hp]
    rfl
  have hnarrow : (@refcountReport File _ target32 (File.opened c)) =
      (scanBehind (Medium.file c) h).map
        fun s => overcount (misread (Medium.file c) h s.2) s.1 := by
    have hscan32 := refcountScan_target32 hp (rtEntries_target32 hsmall)
    rw [scanBehind32_eq] at hscan32
    refine (congrArg (Except.map Prod.fst) hscan32).trans ?_
    cases scanBehind (Medium.file c) h <;> rfl
  refine ⟨by rw [hnarrow, hscan], ?_⟩
  intro hwide
  have hwhole : refcountReport (File.opened c) = (scanBehind (Medium.file c) h).map Prod.fst :=
    congrArg (Except.map Prod.fst) hscan
  rw [hnarrow, hwhole]
  cases hs : scanBehind (Medium.file c) h with
  | error e => rfl
  | ok s =>
    have hnone := misread_eq_zero (M := Medium.file c) (scanned_lt hs) hwide
    simp only [Except.map, hnone]
    rfl

/-- An L2 entry far out, of a cluster whose refcount no table entry leads to. -/
def farImage : Content :=
  ⟨headerBytes 2 9 512 1 104 512 1 ++ List.replicate 32 0 ++ beBytes 8 1024 ++
    List.replicate 400 0 ++ List.replicate 512 0 ++ beBytes 8 (2 ^ 49) ++ List.replicate 504 0, by
      simp only [List.length_append, length_headerBytes, length_beBytes, List.length_replicate]
      norm_num⟩

theorem refcount_report_on_32_bits_sample : ∃ h s,
    RefcountHeader.parse (slice farImage.1 0 104) = .ok h ∧
      outcome (refcountScan.run (File.opened farImage)) = .ok s ∧ s.1.orphanClusters = 0 ∧
      misread (Medium.file farImage) h s.2 = 1 ∧
      (@refcountReport File _ target32 (File.opened farImage)) = .ok (overcount 1 s.1) := by
  obtain ⟨h, hp, hfields⟩ := exists_ok_map
    (x := RefcountHeader.parse (slice farImage.1 0 104))
    (f := fun h => (h.clusterSize, h.refcountOrder, h.refcountTableClusters, h.refcountTableOffset,
      h.rtEntries)) (b := (512, 4, 1, 512, 64)) (by decide +kernel)
  simp only [Prod.mk.injEq] at hfields
  obtain ⟨hcs, horder, htable, hoff, hentries⟩ := hfields
  obtain ⟨s, hs, hzero⟩ := exists_ok_map (x := outcome (refcountScan.run (File.opened farImage)))
    (f := fun s => (s.1.orphanClusters, s.2)) (b := (0, [2 ^ 49])) (by decide +kernel)
  simp only [Prod.mk.injEq] at hzero
  have hmisread : misread (Medium.file farImage) h s.2 = 1 := by
    rw [misread, hzero.2, hcs, horder, hoff, hentries]
    decide +kernel
  have hreport := (refcount_report_on_32_bits hp (by rw [htable, hcs]; norm_num)).1
  rw [hs, Except.map, hmisread] at hreport
  exact ⟨h, s, hp, hs, hzero.1, hmisread, hreport⟩

end Qcow2
