import Qcow2.RefcountRefines
import Qcow2.ReaderRefines

/-! The clusters the reader resolves to host data and the clusters the refcount walk
accounts for, on images whose reserved bits are zero. -/

namespace Qcow2

open StdIo

theorem range_mul (n s : Nat) : List.range (n * s) =
    (List.range n).flatMap fun k => (List.range s).map (k * s + ·) := by
  induction n with
  | zero => simp
  | succ n ih => rw [Nat.succ_mul, List.range_add, ih, List.range_succ, List.flatMap_append,
      List.flatMap_singleton]

theorem entryOffset_eq {e m : Nat} (hm : 56 ≤ m)
    (he : ∀ i, i < 9 ∨ 56 ≤ i ∧ i < m → e.testBit i = false) : entryOffset e = e % 2 ^ m := by
  apply Nat.eq_of_testBit_eq
  intro i
  rw [entryOffset, Nat.testBit_mul_two_pow, Nat.testBit_div_two_pow, Nat.testBit_mod_two_pow,
    Nat.testBit_mod_two_pow]
  by_cases hlow : i < 9
  · simp [show ¬ 9 ≤ i by omega, he i (.inl hlow)]
  · rw [Nat.sub_add_cancel (show 9 ≤ i by omega)]
    by_cases hmid : i < 56
    · simp [show 9 ≤ i by omega, hmid, show i < m by omega]
    · by_cases hhigh : i < m
      · simp [hmid, he i (.inr ⟨by omega, hhigh⟩)]
      · simp [hmid, hhigh]

def ClusterRef.normal? : ClusterRef → Option Nat
  | .normal o => some o
  | _ => none

theorem hostOf_eq (g : GuestMap) {e : Nat} (he : e.testBit 62 = false →
      ∀ i, 1 ≤ i ∧ i ≤ 8 ∨ 56 ≤ i ∧ i ≤ 61 → e.testBit i = false) :
    hostOf e = (g.entryRef e).normal? := by
  unfold hostOf GuestMap.entryRef
  by_cases hc : e.testBit 62 = true
  · rw [if_pos (.inl hc), if_pos hc]
    rfl
  · rw [if_neg hc]
    by_cases hz : e % 2 = 1
    · rw [if_pos (.inr (.inl hz)), if_pos hz]
      rfl
    · rw [if_neg hz]
      have hbits : ∀ i, i < 9 ∨ 56 ≤ i ∧ i < 62 → e.testBit i = false := by
        intro i hi
        by_cases h0 : i = 0
        · subst h0
          simpa [Nat.testBit_zero] using hz
        · exact he (by simpa using hc) i (by omega)
      rw [entryOffset_eq (show 56 ≤ 62 by omega) hbits]
      by_cases ho : e % 2 ^ 62 = 0
      · rw [if_pos (.inr (.inr ho)), if_pos ho]
        rfl
      · rw [if_neg (not_or.mpr ⟨hc, not_or.mpr ⟨hz, ho⟩⟩), if_neg ho]
        rfl

/-- The host offsets that `cluster_ref_for` gives on the first `n` clusters. -/
def normalHosts (r : Qcow2Reader File) (n : Nat) : List Nat :=
  (List.range n).filterMap fun v =>
    ((answer (Qcow2Reader.clusterRefFor (v * r.clusterSize)) r).1.toOption).bind ClusterRef.normal?

namespace Layout

variable (L : Layout) {M : Medium}

theorem cluster_mul {k j : Nat} (hj : j < L.guestMap.slots) :
    L.guestMap.cluster M ((k * L.guestMap.slots + j) * L.guestMap.clusterSize) =
      if (L.guestMap.l1 k).getD 0 % 2 ^ 63 = 0 then .ok .unallocated
      else (M.readExactAt ((L.guestMap.l1 k).getD 0 % 2 ^ 63 + j * 8) 8).map
        fun bs => L.guestMap.entryRef (beNat bs) := by
  have hcs : 0 < L.guestMap.clusterSize := by
    rw [L.guestMap_clusterSize]
    exact L.clusterSize_pos
  have hdiv : (k * L.guestMap.slots + j) * L.guestMap.clusterSize / L.guestMap.clusterSize =
      k * L.guestMap.slots + j := Nat.mul_div_cancel _ hcs
  have hslot : (k * L.guestMap.slots + j) / L.guestMap.slots = k := by
    rw [Nat.mul_comm, Nat.mul_add_div (by omega), Nat.div_eq_of_lt hj, Nat.add_zero]
  have hmod : (k * L.guestMap.slots + j) % L.guestMap.slots = j := by
    rw [Nat.mul_comm, Nat.mul_add_mod, Nat.mod_eq_of_lt hj]
  rw [GuestMap.cluster, GuestMap.l2Table, hdiv, hslot, hmod]

theorem table_hosts {k w : Nat} (hw : L.guestMap.l1 k = some w)
    (hres : ∀ i, i ≤ 8 ∨ 56 ≤ i ∧ i ≤ 62 → w.testBit i = false)
    (htable : w % 2 ^ 63 ≠ 0 → w % 2 ^ 63 + L.clusterSize ≤ M.bytes.length)
    (hentries : w % 2 ^ 63 ≠ 0 → ∀ j, j < L.clusterSize / 8 →
      let e := beAt M.bytes (w % 2 ^ 63 + j * 8) 8
      e.testBit 62 = false → ∀ i, 1 ≤ i ∧ i ≤ 8 ∨ 56 ≤ i ∧ i ≤ 61 → e.testBit i = false) :
    (if entryOffset w = 0 then []
      else ((tableIn M (entryOffset w) (L.clusterSize / 8)).toOption.getD []).filterMap hostOf) =
    (List.range L.guestMap.slots).filterMap fun j =>
      ((L.guestMap.cluster M ((k * L.guestMap.slots + j) * L.guestMap.clusterSize)).toOption).bind
        ClusterRef.normal? := by
  have hslots : L.clusterSize / 8 = L.guestMap.slots := by
    rw [GuestMap.slots, L.guestMap_clusterSize]
  have height : 8 * L.guestMap.slots ≤ L.clusterSize := by
    rw [← hslots]
    exact Nat.mul_div_le _ _
  have hoff : entryOffset w = w % 2 ^ 63 :=
    entryOffset_eq (by omega) fun i hi => hres i (by omega)
  rw [hoff, hslots]
  rw [hslots] at hentries
  by_cases hz : w % 2 ^ 63 = 0
  · rw [if_pos hz]
    symm
    rw [List.filterMap_eq_nil_iff]
    intro j hj
    rw [L.cluster_mul (List.mem_range.mp hj), hw, Option.getD_some, if_pos hz]
    rfl
  · have hin := htable hz
    have hread : tableIn M (w % 2 ^ 63) L.guestMap.slots =
        .ok ((List.range L.guestMap.slots).map fun j => beAt M.bytes (w % 2 ^ 63 + j * 8) 8) :=
      tableIn_of_le hz (by omega)
    rw [if_neg hz, hread]
    simp only [Except.toOption, Option.getD_some, List.filterMap_map]
    apply List.filterMap_congr
    intro j hj
    have hj' := List.mem_range.mp hj
    have hok := (M.readExactAt_eq_ok_iff (show 0 < 8 by omega)).mpr
      ⟨show w % 2 ^ 63 + j * 8 + 8 ≤ M.bytes.length by omega, rfl⟩
    rw [L.cluster_mul hj', hw, Option.getD_some, if_neg hz, hok]
    exact hostOf_eq L.guestMap (hentries hz j hj')

end Layout

def l1EntryAt (c : Content) (h : RefcountHeader) (k : Nat) : Nat :=
  beAt c.1 (h.l1TableOffset + k * 8) 8

/-- Reserved bits are zero in every L1 entry and in every uncompressed L2 entry, and
the L2 tables lie in the file. -/
structure PlainTables (c : Content) (h : RefcountHeader) : Prop where
  l1 : ∀ k, k < h.l1Size → ∀ i, i ≤ 8 ∨ 56 ≤ i ∧ i ≤ 62 → (l1EntryAt c h k).testBit i = false
  table : ∀ k, k < h.l1Size → l1EntryAt c h k % 2 ^ 63 ≠ 0 →
    l1EntryAt c h k % 2 ^ 63 + h.clusterSize ≤ c.1.length
  l2 : ∀ k, k < h.l1Size → l1EntryAt c h k % 2 ^ 63 ≠ 0 → ∀ j, j < h.clusterSize / 8 →
    let e := beAt c.1 (l1EntryAt c h k % 2 ^ 63 + j * 8) 8
    e.testBit 62 = false → ∀ i, 1 ≤ i ∧ i ≤ 8 ∨ 56 ≤ i ∧ i ≤ 61 → e.testBit i = false

theorem l1Table_eq {c : Content} {h : RefcountHeader} (hoff : h.l1TableOffset ≠ 0)
    (hsmall : h.l1Size ≤ 2 ^ 20)
    (hinside : 0 < h.l1Size → h.l1TableOffset + h.l1Size * 8 ≤ c.1.length) :
    (tableIn (Medium.file c) h.l1TableOffset h.l1Entries).toOption.getD [] =
      (List.range h.l1Size).map (l1EntryAt c h) := by
  have hentries : h.l1Entries = h.l1Size := by
    have hmax : maxL1Entries = 2 ^ 20 := rfl
    rw [RefcountHeader.l1Entries]
    omega
  rw [hentries]
  by_cases hz : h.l1Size = 0
  · rw [tableIn, if_pos (.inl hz), hz]
    rfl
  · rw [tableIn_of_le hoff (hinside (by omega))]
    rfl

theorem lookup_mapped {c : Content} {cursor : File → Nat → Prop} {r₀ : Qcow2Reader File}
    (S : Serves (Medium.file c) cursor) (hl : openedLayout (Medium.file c) = .ok r₀.toLayout)
    {p : Nat} (hat : Qcow2Reader.At cursor r₀.toLayout p r₀) {v : Nat}
    (hv : v < beAt c.1 36 4 * r₀.guestMap.slots) :
    (answer (Qcow2Reader.clusterRefFor (v * r₀.clusterSize)) r₀).1 =
      r₀.guestMap.cluster (Medium.file c) (v * r₀.guestMap.clusterSize) := by
  have hmapped := openedLayout_mapped_lt hl
  rw [Medium.file_bytes] at hmapped
  have hbound : v * r₀.guestMap.clusterSize < 2 ^ 63 := (Nat.mul_le_mul_right _ hv.le).trans_lt hmapped
  rw [r₀.guestMap_clusterSize] at hbound ⊢
  obtain ⟨r', -, hrun⟩ := Qcow2Reader.clusterRefFor_computes S r₀.toLayout p
    (hbound.trans (by norm_num)) r₀ hat
  rw [answer_eq hrun]

theorem candidates_eq_normalHosts {c : Content} {r₀ : Qcow2Reader File}
    (hopen : fromBacking (File.opened c) = .ok r₀) {h : RefcountHeader}
    (hp : RefcountHeader.parse (slice c.1 0 104) = .ok h) (hoff : h.l1TableOffset ≠ 0)
    (hplain : PlainTables c h) :
    candidates (Medium.file c) h.clusterSize
        ((tableIn (Medium.file c) h.l1TableOffset h.l1Entries).toOption.getD []) =
      normalHosts r₀ (h.l1Size * (h.clusterSize / 8)) := by
  have S := serves_file c
  obtain ⟨hl, hat⟩ := fromBacking_at S (File.on_opened c) hopen
  have hmap := openedLayout_guestMap hl
  obtain ⟨-, -, -, -, hsmall, hinside⟩ := openedLayout_fields hl
  obtain ⟨-, -, hbits, hl1Size, hl1Off, -⟩ := RefcountHeader.parse_ok hp
  rw [Medium.file_bytes] at hmap hsmall hinside
  rw [← hl1Size] at hsmall hinside
  rw [← hl1Off] at hinside
  have hcs : h.clusterSize = r₀.clusterSize := by
    have hb : r₀.clusterBits = beAt c.1 20 4 := congrArg GuestMap.clusterBits hmap
    rw [RefcountHeader.clusterSize, Nat.one_shiftLeft, r₀.clusterSize_eq, hb, hbits]
  have hslots : h.clusterSize / 8 = r₀.guestMap.slots := by
    rw [hcs, GuestMap.slots, r₀.guestMap_clusterSize]
  have hentry : ∀ k, k < h.l1Size → r₀.guestMap.l1 k = some (l1EntryAt c h k) := by
    intro k hk
    rw [hmap, GuestMap.ofImage, l1EntryAt, hl1Off]
    exact if_pos (by omega)
  rw [l1Table_eq hoff hsmall hinside, candidates, List.flatMap_map, normalHosts, hslots, range_mul, List.filterMap_flatMap]
  apply List.flatMap_congr
  intro k hk
  have hk' := List.mem_range.mp hk
  have hhosts := r₀.table_hosts (M := Medium.file c) (hentry k hk') (hplain.l1 k hk')
    (by rw [← hcs]; exact hplain.table k hk') (by rw [← hcs]; exact hplain.l2 k hk')
  rw [← hcs, hslots] at hhosts
  rw [hhosts, List.filterMap_map]
  apply List.filterMap_congr
  intro j hj
  have hj' := List.mem_range.mp hj
  have hv : k * r₀.guestMap.slots + j < h.l1Size * r₀.guestMap.slots := by
    calc k * r₀.guestMap.slots + j < k * r₀.guestMap.slots + r₀.guestMap.slots := by omega
      _ = (k + 1) * r₀.guestMap.slots := by rw [Nat.succ_mul]
      _ ≤ h.l1Size * r₀.guestMap.slots := Nat.mul_le_mul_right _ hk'
  rw [hl1Size] at hv
  simp only [Function.comp, lookup_mapped S hl hat hv]

/-- On an image the strict reader opens, with a readable refcount table and plain
tables, the report counts and looks up the hosts the reader resolves, each once. -/
theorem walk_sees_reader_allocation {c : Content} {r₀ : Qcow2Reader File}
    (hopen : fromBacking (File.opened c) = .ok r₀) {h : RefcountHeader} {refcountTable : List Nat}
    (hp : RefcountHeader.parse (slice c.1 0 104) = .ok h) (hoff : h.l1TableOffset ≠ 0)
    (horder : h.refcountOrder ≤ 6)
    (hrt : tableIn (Medium.file c) h.refcountTableOffset h.rtEntries = .ok refcountTable)
    (hplain : PlainTables c h)
    (hcap : (normalHosts r₀ (h.l1Size * (h.clusterSize / 8))).length ≤ maxClustersScanned) :
    let hosts := normalHosts r₀ (h.l1Size * (h.clusterSize / 8))
    ∃ report, refcountReport (File.opened c) = .ok report ∧
      outcome (refcountScan.run (File.opened c)) = .ok (report, hosts) ∧
      report.allocatedClusters = hosts.length ∧
      report.orphanClusters = hosts.countP fun o =>
        (answer (refcountOf refcountTable (o / h.clusterSize) h.refcountBits h.clusterSize)
          (File.opened c)).1.toOption = some (some 0) := by
  intro hosts
  have hcand := candidates_eq_normalHosts hopen hp hoff hplain
  have hscan : outcome (refcountScan.run (File.opened c)) =
      .ok (h.report hosts.length (hosts.countP fun o => refcountIn (Medium.file c) refcountTable
        h.refcountOrder h.clusterSize (o / h.clusterSize) = some 0), hosts) := by
    rw [refcountScan_outcome, scanOf, Medium.file_bytes, hp]
    simp only [if_neg (show ¬ 6 < h.refcountOrder by omega), hrt, hcand]
    rw [List.take_of_length_le hcap, Nat.min_eq_left (by omega)]
  refine ⟨_, by rw [refcountReport, hscan]; rfl, hscan, rfl, ?_⟩
  apply List.countP_congr
  intro o ho
  have ho' : o ∈ normalHosts r₀ (h.l1Size * (h.clusterSize / 8)) := ho
  rw [← hcand] at ho'
  have hlt : o < 2 ^ 64 := lt_of_mem_candidates ho'
  obtain ⟨f, -, hrun⟩ := refcountOf_computes (serves_file c) refcountTable horder h.clusterSize
    ((Nat.div_le_self o h.clusterSize).trans_lt hlt) (File.opened c) ⟨0, rfl, rfl, by norm_num⟩
  rw [show h.refcountBits = 1 <<< h.refcountOrder from rfl, answer_eq hrun]
  simp [Except.toOption]

/-- One L2 table with one host cluster, no refcount table. -/
def oneClusterImage : Content :=
  ⟨headerBytes 2 9 512 1 72 0 0 ++ beBytes 8 512 ++ List.replicate 432 0 ++ beBytes 8 1024 ++
    List.replicate 504 0, by
    simp only [List.length_append, length_headerBytes, length_beBytes, List.length_replicate]
    norm_num⟩

theorem oneClusterImage_header :
    ∃ h, RefcountHeader.parse (slice oneClusterImage.1 0 104) = .ok h ∧ h.refcountOrder = 4 ∧
      h.refcountTableOffset = 0 ∧ h.l1TableOffset = 72 ∧ h.l1Size = 1 ∧ h.clusterSize = 512 := by
  obtain ⟨h, hp, hfields⟩ := exists_ok_map (x := RefcountHeader.parse (slice oneClusterImage.1 0 104))
    (f := fun h => (h.refcountOrder, h.refcountTableOffset, h.l1TableOffset, h.l1Size, h.clusterSize))
    (b := (4, 0, 72, 1, 512)) (by decide +kernel)
  simp only [Prod.mk.injEq] at hfields
  exact ⟨h, hp, hfields⟩

theorem oneClusterImage_plain {h : RefcountHeader} (hoff : h.l1TableOffset = 72)
    (hsize : h.l1Size = 1) (hcs : h.clusterSize = 512) : PlainTables oneClusterImage h := by
  have hword : ∀ k, k < h.l1Size → l1EntryAt oneClusterImage h k = 512 := by
    intro k hk
    obtain rfl : k = 0 := by omega
    rw [l1EntryAt, hoff]
    decide +kernel
  have hslot : ∀ j, j < 64 → beAt oneClusterImage.1 (512 + j * 8) 8 = if j = 0 then 1024 else 0 := by
    decide +kernel
  refine ⟨?_, ?_, ?_⟩
  · intro k hk i hi
    rw [hword k hk, show 512 = 2 ^ 9 from rfl, Nat.testBit_two_pow]
    simp only [decide_eq_false_iff_not]
    omega
  · intro k hk _
    rw [hword k hk, hcs]
    decide +kernel
  · intro k hk _ j hj
    rw [hword k hk]
    rw [hcs] at hj
    rw [show 512 % 2 ^ 63 = 512 from rfl, hslot j (by omega)]
    intro e _ i hi
    by_cases hj0 : j = 0
    · simp only [e, if_pos hj0]
      rw [show 1024 = 2 ^ 10 from rfl, Nat.testBit_two_pow]
      simp only [decide_eq_false_iff_not]
      omega
    · simp only [e, if_neg hj0, Nat.zero_testBit]

theorem length_normalHosts_le (r : Qcow2Reader File) (n : Nat) : (normalHosts r n).length ≤ n := by
  have hle := List.length_filterMap_le (fun v =>
    ((answer (Qcow2Reader.clusterRefFor (v * r.clusterSize)) r).1.toOption).bind
      ClusterRef.normal?) (List.range n)
  rwa [List.length_range] at hle

theorem walk_sees_reader_allocation_sample : ∃ r₀ h,
    fromBacking (File.opened oneClusterImage) = .ok r₀ ∧
      RefcountHeader.parse (slice oneClusterImage.1 0 104) = .ok h ∧
      ∃ report, refcountReport (File.opened oneClusterImage) = .ok report ∧
        outcome (refcountScan.run (File.opened oneClusterImage)) =
          .ok (report, normalHosts r₀ (h.l1Size * (h.clusterSize / 8))) := by
  obtain ⟨r₀, hopen⟩ := exists_ok (x := fromBacking (File.opened oneClusterImage))
    (by decide +kernel)
  obtain ⟨h, hp, horder, hrtOff, hoff, hsize, hcs⟩ := oneClusterImage_header
  have hrt : tableIn (Medium.file oneClusterImage) h.refcountTableOffset h.rtEntries = .ok [] := by
    rw [tableIn, if_pos (.inr hrtOff)]
  have hcap : (normalHosts r₀ (h.l1Size * (h.clusterSize / 8))).length ≤ maxClustersScanned := by
    have hmax : maxClustersScanned = 2 ^ 24 := rfl
    refine (length_normalHosts_le r₀ _).trans ?_
    rw [hsize, hcs, hmax]
    norm_num
  obtain ⟨report, hreport, hscan, -⟩ := walk_sees_reader_allocation hopen hp (by omega)
    (by omega) hrt (oneClusterImage_plain hoff hsize hcs) hcap
  exact ⟨r₀, h, hopen, hp, report, hreport, hscan⟩

end Qcow2
