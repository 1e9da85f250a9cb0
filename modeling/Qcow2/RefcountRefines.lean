import Qcow2.Refcount

/-! The refcount report as a function of the file's bytes: the candidate clusters of
its tables in walking order, and the refcount of each. -/

namespace Qcow2

open StdIo

def tableIn (M : Medium) (offset n : Nat) : Except Qcow2Error (List Nat) :=
  if n = 0 ∨ offset = 0 then .ok []
  else ((M.readExactAt offset (n * 8)).mapError .io).map beWords

/-- The field of `2 ^ order` bits of a cluster in the refcount block its table entry
names; `none` when entry or block cannot be read. -/
def refcountIn (M : Medium) (refcountTable : List Nat) (order clusterSize clusterIdx : Nat) :
    Option Nat :=
  let perBlock := clusterSize * 8 / 2 ^ order
  if perBlock = 0 then none
  else
    refcountTable[clusterIdx / perBlock]?.bind fun entry =>
      let block := entry &&& (2 ^ 64 - 1 - (clusterSize - 1))
      let bitOff := clusterIdx % perBlock * 2 ^ order
      if block = 0 then some 0
      else if 3 ≤ order then
        (M.readExactAt (block + bitOff / 8) (2 ^ order / 8)).toOption.map beNat
      else
        (M.readExactAt (block + bitOff / 8) 1).toOption.map fun b =>
          beNat b / 2 ^ (8 - bitOff % 8 - 2 ^ order) % 2 ^ 2 ^ order

def entryOffset (e : Nat) : Nat := e % 2 ^ 56 / 2 ^ 9 * 2 ^ 9

theorem entryOffset_lt (e : Nat) : entryOffset e < 2 ^ 64 := by
  have hlt : e % 2 ^ 56 < 2 ^ 56 := Nat.mod_lt _ (by positivity)
  have hle := Nat.div_mul_le_self (e % 2 ^ 56) (2 ^ 9)
  unfold entryOffset
  omega

/-- The host cluster an L2 entry accounts for: uncompressed, not zero-flagged and
not unallocated. -/
def hostOf (e : Nat) : Option Nat :=
  if e.testBit 62 ∨ e % 2 = 1 ∨ entryOffset e = 0 then none else some (entryOffset e)

def candidates (M : Medium) (clusterSize : Nat) (l1Table : List Nat) : List Nat :=
  l1Table.flatMap fun e =>
    if entryOffset e = 0 then []
    else (((tableIn M (entryOffset e) (clusterSize / 8)).toOption).getD []).filterMap hostOf

theorem lt_of_mem_candidates {M : Medium} {clusterSize o : Nat} {l1Table : List Nat}
    (ho : o ∈ candidates M clusterSize l1Table) : o < 2 ^ 64 := by
  simp only [candidates, List.mem_flatMap] at ho
  obtain ⟨w, -, ho⟩ := ho
  split at ho
  · simp at ho
  · obtain ⟨e, -, he⟩ := List.mem_filterMap.mp ho
    unfold hostOf at he
    split at he
    · cases he
    · cases he
      exact entryOffset_lt e

theorem land_offsetMask (e : Nat) : e &&& offsetMask = entryOffset e :=
  land_field e 9 56 (by omega)

/-- Count host clusters, and look up the refcount `f` of each, until the cap. -/
def account (f : Nat → Option Nat) : List Nat → Scan → Scan × Bool
  | [], acc => (acc, false)
  | o :: os, acc =>
    if maxClustersScanned < acc.allocatedClusters + 1 then
      ({ acc with allocatedClusters := acc.allocatedClusters + 1 }, true)
    else
      account f os
        { allocatedClusters := acc.allocatedClusters + 1
          orphanClusters := acc.orphanClusters + if f o = some 0 then 1 else 0
          lookups := acc.lookups ++ [o] }

theorem account_append (f : Nat → Option Nat) (os ps : List Nat) (acc : Scan) :
    account f (os ++ ps) acc =
      if (account f os acc).2 then account f os acc else account f ps (account f os acc).1 := by
  induction os generalizing acc with
  | nil => simp [account]
  | cons o os ih =>
    simp only [List.cons_append, account]
    by_cases hcap : maxClustersScanned < acc.allocatedClusters + 1
    · simp only [if_pos hcap, if_true]
    · simp only [if_neg hcap]
      exact ih _

/-- The walk looks at the first `maxClustersScanned` candidates and counts one more
at most. -/
theorem account_eq (f : Nat → Option Nat) {os : List Nat} {acc : Scan}
    (hacc : acc.allocatedClusters ≤ maxClustersScanned) :
    (account f os acc).1 =
      { allocatedClusters := min (acc.allocatedClusters + os.length) (maxClustersScanned + 1)
        orphanClusters := acc.orphanClusters +
          (os.take (maxClustersScanned - acc.allocatedClusters)).countP (f · = some 0)
        lookups := acc.lookups ++ os.take (maxClustersScanned - acc.allocatedClusters) } := by
  induction os generalizing acc with
  | nil =>
    simp only [account, List.length_nil, Nat.add_zero, List.take_nil, List.countP_nil,
      List.append_nil, Nat.min_eq_left (show acc.allocatedClusters ≤ maxClustersScanned + 1 by omega)]
  | cons o os ih =>
    by_cases hcap : maxClustersScanned < acc.allocatedClusters + 1
    · have hfull : maxClustersScanned - acc.allocatedClusters = 0 := by omega
      have hmin : min (acc.allocatedClusters + (o :: os).length) (maxClustersScanned + 1) =
          acc.allocatedClusters + 1 := by
        simp only [List.length_cons]
        omega
      simp only [account, if_pos hcap, hfull, List.take_zero, List.countP_nil, Nat.add_zero,
        List.append_nil, hmin]
    · obtain ⟨n, hn⟩ : ∃ n, maxClustersScanned - acc.allocatedClusters = n + 1 :=
        ⟨maxClustersScanned - acc.allocatedClusters - 1, by omega⟩
      have hn' : maxClustersScanned - (acc.allocatedClusters + 1) = n := by omega
      have hh := ih (show Scan.allocatedClusters ⟨acc.allocatedClusters + 1,
        acc.orphanClusters + if f o = some 0 then 1 else 0, acc.lookups ++ [o]⟩ ≤
          maxClustersScanned by dsimp only; omega)
      simp only [account, if_neg hcap, hh, hn, hn', List.take_succ_cons, List.length_cons,
        List.countP_cons, decide_eq_true_eq, List.append_assoc, List.singleton_append]
      simp only [Scan.mk.injEq, and_true]
      constructor <;> omega

section Walk

variable {β : Type} [ReadSeek β] {M : Medium} {cursor : β → Nat → Prop}

theorem readU64TableChecked_computes (S : Serves M cursor) (offset n : Nat) :
    Computes (Serves.Standing cursor) (readU64TableChecked offset n) (tableIn M offset n) := by
  have hread : Computes (Serves.Standing cursor) (io (readExactAt offset (n * 8)))
      ((M.readExactAt offset (n * 8)).mapError .io) :=
    (S.readExactAt offset (n * 8)).adaptExcept Qcow2Error.io
  exact Computes.ite (fun _ => Computes.pure _) fun _ => hread.map beWords

theorem readU64Table_computes (S : Serves M cursor) (offset n : Nat) :
    Computes (Serves.Standing cursor) (readU64Table offset n)
      (.ok ((tableIn M offset n).toOption.getD [])) :=
  (readU64TableChecked_computes S offset n).attempt.map fun table => table.getD []

theorem readAt_computes (S : Serves M cursor) (offset n : Nat) :
    Computes (Serves.Standing cursor) (readAt offset n) (.ok (M.readExactAt offset n).toOption) :=
  (S.readExactAt offset n).attempt

theorem refcountOf_computes (S : Serves M cursor) (refcountTable : List Nat) {order : Nat}
    (horder : order ≤ 6) (clusterSize : Nat) {clusterIdx : Nat} (hidx : clusterIdx < 2 ^ 64) :
    Computes (Serves.Standing cursor)
      (refcountOf refcountTable clusterIdx (1 <<< order) clusterSize)
      (.ok (refcountIn M refcountTable order clusterSize clusterIdx)) := by
  unfold refcountOf refcountIn
  simp only [Nat.one_shiftLeft]
  by_cases hzero : clusterSize * 8 / 2 ^ order = 0
  · simp only [if_pos hzero]
    exact Computes.pure _
  · simp only [if_neg hzero]
    rw [asUsize_of_lt ((Nat.div_le_self _ _).trans_lt hidx)]
    cases refcountTable[clusterIdx / (clusterSize * 8 / 2 ^ order)]? with
    | none => exact Computes.pure _
    | some entry =>
      simp only [Option.bind_some]
      by_cases hblock : entry &&& (2 ^ 64 - 1 - (clusterSize - 1)) = 0
      · simp only [if_pos hblock]
        exact Computes.pure _
      · simp only [if_neg hblock]
        obtain ⟨bitOff, hbit⟩ : ∃ bitOff,
            bitOff = clusterIdx % (clusterSize * 8 / 2 ^ order) * 2 ^ order := ⟨_, rfl⟩
        rw [← hbit]
        have hread := readAt_computes S ((entry &&& (2 ^ 64 - 1 - (clusterSize - 1))) + bitOff / 8)
        have hsub := (hread 1).map fun o => o.map fun b =>
          beNat b >>> (8 - bitOff % 8 - 2 ^ order) &&& (2 ^ 2 ^ order - 1)
        simp only [land_low, shiftRight_two_pow] at hsub ⊢
        by_cases hwide : 3 ≤ order
        · rw [if_pos hwide]
          obtain rfl | rfl | rfl | rfl : order = 3 ∨ order = 4 ∨ order = 5 ∨ order = 6 := by omega
          · exact (hread 1).map fun o => o.map beNat
          · exact (hread 2).map fun o => o.map beNat
          · exact (hread 4).map fun o => o.map beNat
          · exact (hread 8).map fun o => o.map beNat
        · rw [if_neg hwide]
          obtain rfl | rfl | rfl : order = 0 ∨ order = 1 ∨ order = 2 := by omega
          · exact hsub
          · exact hsub
          · exact hsub

/-- Whatever the lookup of a cluster computes, the inner loop accounts for it. -/
theorem scanL2_computes_of [Target] {I : β → Prop} {refcountTable : List Nat}
    {refcountBits clusterSize : Nat} {f : Nat → Option Nat}
    (hf : ∀ k, k < 2 ^ 64 → Computes I (refcountOf refcountTable k refcountBits clusterSize) (.ok (f k)))
    (entries : List Nat) (acc : Scan) :
    Computes I (scanL2 refcountTable refcountBits clusterSize entries acc)
      (.ok (account (fun o => f (o / clusterSize)) (entries.filterMap hostOf) acc)) := by
  induction entries generalizing acc with
  | nil => exact Computes.pure _
  | cons e es ih =>
    unfold scanL2
    simp only [land_bit_ne_zero, land_one_ne_zero, land_offsetMask]
    by_cases hskip : e.testBit 62 = true ∨ e % 2 = 1 ∨ entryOffset e = 0
    · have hnone : hostOf e = none := if_pos hskip
      rw [List.filterMap_cons_none hnone]
      rcases hskip with hc | hz | ho
      · rw [if_pos hc]
        exact ih acc
      · rw [if_pos hz, ite_self]
        exact ih acc
      · simp only [if_pos ho, ite_self]
        exact ih acc
    · have hsome : hostOf e = some (entryOffset e) := if_neg hskip
      simp only [not_or] at hskip
      rw [List.filterMap_cons_some hsome, if_neg hskip.1, if_neg hskip.2.1, if_neg hskip.2.2]
      have href := hf _ ((Nat.div_le_self (entryOffset e) clusterSize).trans_lt (entryOffset_lt e))
      by_cases hcap : maxClustersScanned < acc.allocatedClusters + 1
      · simp only [if_pos hcap, account]
        exact Computes.pure _
      · simp only [if_neg hcap, account]
        exact href.bind_ok (ih _)

theorem scanL2_computes (S : Serves M cursor) (refcountTable : List Nat) {order : Nat}
    (horder : order ≤ 6) (clusterSize : Nat) (entries : List Nat) (acc : Scan) :
    Computes (Serves.Standing cursor)
      (scanL2 refcountTable (1 <<< order) clusterSize entries acc)
      (.ok (account (fun o => refcountIn M refcountTable order clusterSize (o / clusterSize))
        (entries.filterMap hostOf) acc)) :=
  scanL2_computes_of (fun _ hk => refcountOf_computes S refcountTable horder clusterSize hk) entries acc

theorem scanL1_computes_of [Target] (S : Serves M cursor) {refcountTable : List Nat}
    {refcountBits clusterSize : Nat} {f : Nat → Option Nat} (hcs : asUsize (clusterSize / 8) = clusterSize / 8)
    (hf : ∀ k, k < 2 ^ 64 → Computes (Serves.Standing cursor)
      (refcountOf refcountTable k refcountBits clusterSize) (.ok (f k)))
    (l1Table : List Nat) (acc : Scan) :
    Computes (Serves.Standing cursor) (scanL1 refcountTable refcountBits clusterSize l1Table acc)
      (.ok (account (fun o => f (o / clusterSize)) (candidates M clusterSize l1Table) acc).1) := by
  induction l1Table generalizing acc with
  | nil => exact Computes.pure _
  | cons e es ih =>
    unfold scanL1
    simp only [land_offsetMask]
    by_cases hz : entryOffset e = 0
    · have hcand : candidates M clusterSize (e :: es) = candidates M clusterSize es := by
        simp [candidates, hz]
      rw [if_pos hz, hcand]
      exact ih acc
    · have hcand : candidates M clusterSize (e :: es) =
          (((tableIn M (entryOffset e) (clusterSize / 8)).toOption).getD []).filterMap hostOf ++
            candidates M clusterSize es := by
        simp [candidates, hz]
      have htable := readU64Table_computes S (entryOffset e) (clusterSize / 8)
      have hinner := scanL2_computes_of hf
        ((tableIn M (entryOffset e) (clusterSize / 8)).toOption.getD []) acc
      rw [if_neg hz, hcand, account_append, hcs]
      refine htable.bind_ok (hinner.bind_ok ?_)
      by_cases hstop : (account (fun o => f (o / clusterSize))
          (((tableIn M (entryOffset e) (clusterSize / 8)).toOption.getD []).filterMap hostOf)
            acc).2 = true
      · simp only [if_pos hstop]
        exact Computes.pure _
      · simp only [if_neg hstop]
        exact ih _

theorem scanL1_computes (S : Serves M cursor) (refcountTable : List Nat) {order : Nat}
    (horder : order ≤ 6) {clusterSize : Nat} (hcs : clusterSize < 2 ^ 64) (l1Table : List Nat)
    (acc : Scan) :
    Computes (Serves.Standing cursor)
      (scanL1 refcountTable (1 <<< order) clusterSize l1Table acc)
      (.ok (account (fun o => refcountIn M refcountTable order clusterSize (o / clusterSize))
        (candidates M clusterSize l1Table) acc).1) :=
  scanL1_computes_of S (asUsize_of_lt ((Nat.div_le_self _ _).trans_lt hcs))
    (fun _ hk => refcountOf_computes S refcountTable horder clusterSize hk) l1Table acc

end Walk

/-- The report of a file's bytes, with the lookups behind it. -/
def scanOf (M : Medium) : Except Qcow2Error (Qcow2RefcountReport × List Nat) :=
  match RefcountHeader.parse (slice M.bytes 0 104) with
  | .error e => .error e
  | .ok h =>
    if 6 < h.refcountOrder then .ok (h.report 0 0, [])
    else
      match tableIn M h.refcountTableOffset h.rtEntries with
      | .error e => .error e
      | .ok refcountTable =>
        let l1Table := (tableIn M h.l1TableOffset h.l1Entries).toOption.getD []
        let hosts := candidates M h.clusterSize l1Table
        let seen := hosts.take maxClustersScanned
        .ok (h.report (min hosts.length (maxClustersScanned + 1)) (seen.countP fun o =>
          refcountIn M refcountTable h.refcountOrder h.clusterSize (o / h.clusterSize) = some 0), seen)

/-- The part of it behind an accepted header. -/
def scanBehind (M : Medium) (h : RefcountHeader) : Except Qcow2Error (Qcow2RefcountReport × List Nat) :=
  if 6 < h.refcountOrder then .ok (h.report 0 0, [])
  else
    (tableIn M h.refcountTableOffset h.rtEntries).map fun refcountTable =>
      let hosts := candidates M h.clusterSize ((tableIn M h.l1TableOffset h.l1Entries).toOption.getD [])
      let seen := hosts.take maxClustersScanned
      (h.report (min hosts.length (maxClustersScanned + 1)) (seen.countP fun o =>
        refcountIn M refcountTable h.refcountOrder h.clusterSize (o / h.clusterSize) = some 0), seen)

theorem scanOf_eq (M : Medium) :
    scanOf M = (RefcountHeader.parse (slice M.bytes 0 104)).bind (scanBehind M) := by
  unfold scanOf scanBehind
  cases RefcountHeader.parse (slice M.bytes 0 104) with
  | error e => rfl
  | ok h =>
    simp only [Except.bind]
    split
    · rfl
    · cases tableIn M h.refcountTableOffset h.rtEntries <;> rfl

theorem RefcountHeader.clusterSize_bounds (h : RefcountHeader) :
    2 ^ 9 ≤ h.clusterSize ∧ h.clusterSize ≤ 2 ^ 20 := by
  obtain ⟨hlow, hhigh⟩ := h.clusterBits_range
  rw [clusterSize, Nat.one_shiftLeft]
  exact ⟨Nat.pow_le_pow_right (by omega) hlow, Nat.pow_le_pow_right (by omega) hhigh⟩

theorem RefcountHeader.tableBytes_le {hdr : List UInt8} {h : RefcountHeader} (hp : parse hdr = .ok h) :
    h.refcountTableClusters * h.clusterSize ≤ 2 ^ 32 * 2 ^ 20 := by
  have hclusters : h.refcountTableClusters < 2 ^ 32 := by
    simp only [parse] at hp
    split_ifs at hp
    all_goals
      cases hp
      exact beUint_lt 4 hdr 56
  exact Nat.mul_le_mul hclusters.le h.clusterSize_bounds.2

theorem refcountScan_run {β : Type} [ReadSeek β] {M : Medium} {cursor : β → Nat → Prop} {b b' : β}
    {hdr : List UInt8} (S : Serves M cursor) (hread : (ReadSeek.read 104).run b = .ok hdr b')
    (hstand : Serves.Standing cursor b') :
    outcome (refcountScan.run b) = (RefcountHeader.parse hdr).bind (scanBehind M) := by
  have hio : (io (ReadSeek.read 104)).run b = .ok hdr b' := run_io (o := .ok hdr) hread
  unfold refcountScan
  simp only [EStateM.run_bind, hio, run_fromResult]
  cases RefcountHeader.parse hdr with
  | error e => rfl
  | ok h =>
    simp only [withState_ok, Except.bind, scanBehind]
    by_cases hbig : 6 < h.refcountOrder
    · simp only [if_pos hbig]
      rfl
    · simp only [if_neg hbig]
      have htable := readU64TableChecked_computes S h.refcountTableOffset h.rtEntries
      have hl1 := readU64Table_computes S h.l1TableOffset h.l1Entries
      cases ht : tableIn M h.refcountTableOffset h.rtEntries with
      | error e =>
        rw [ht] at htable
        exact htable.bind_error.outcome_eq hstand
      | ok refcountTable =>
        rw [ht] at htable
        have hcs := h.clusterSize_bounds.2
        have hwalk := scanL1_computes S refcountTable (show h.refcountOrder ≤ 6 by omega)
          (show h.clusterSize < 2 ^ 64 by omega) ((tableIn M h.l1TableOffset h.l1Entries).toOption.getD []) ⟨0, 0, []⟩
        rw [account_eq _ (show 0 ≤ maxClustersScanned by omega)] at hwalk
        simp only [Nat.zero_add, Nat.sub_zero, List.nil_append] at hwalk
        have hreport := hwalk.map fun acc =>
          (h.report acc.allocatedClusters acc.orphanClusters, acc.lookups)
        exact (htable.bind_ok (hl1.bind_ok hreport)).outcome_eq hstand

theorem refcountScan_outcome (c : Content) :
    outcome (refcountScan.run (File.opened c)) = scanOf (Medium.file c) := by
  have hwindow := length_slice_le c.1 0 104
  have hat : File.On c ⟨c, (slice c.1 0 104).length⟩ (slice c.1 0 104).length :=
    ⟨rfl, rfl, by omega⟩
  rw [scanOf_eq]
  exact refcountScan_run (serves_file c) (File.read_opened c 104) ⟨_, hat⟩

theorem refcountReport_eq (c : Content) :
    refcountReport (File.opened c) = (scanOf (Medium.file c)).map Prod.fst := by
  rw [refcountReport, refcountScan_outcome]

theorem RefcountHeader.parse_isOk_iff {bytes : List UInt8} (hlen : 72 ≤ bytes.length)
    (hmagic : beAt bytes 0 4 = magic) :
    (∃ h, parse (slice bytes 0 104) = .ok h) ↔
      (2 ≤ beAt bytes 4 4 ∧ beAt bytes 4 4 ≤ 3) ∧ 9 ≤ beAt bytes 20 4 ∧ beAt bytes 20 4 ≤ 20 := by
  have hwindow := length_slice bytes 0 104
  have hshort : ¬ (slice bytes 0 104).length < minHeaderSize := by
    rw [minHeaderSize]
    omega
  have hf : ∀ {off : Nat}, off + 4 ≤ 72 → beU32 (slice bytes 0 104) off = beAt bytes off 4 :=
    fun ho => beUint_header (by omega) hlen ho
  simp only [parse, if_neg hshort, hf (show 0 + 4 ≤ 72 by omega), hf (show 4 + 4 ≤ 72 by omega),
    hf (show 20 + 4 ≤ 72 by omega), hmagic, ne_eq, not_true_eq_false, if_false]
  by_cases hversion : 2 ≤ beAt bytes 4 4 ∧ beAt bytes 4 4 ≤ 3
  · rw [if_neg (not_not.mpr hversion)]
    by_cases hbits : 9 ≤ beAt bytes 20 4 ∧ beAt bytes 20 4 ≤ 20
    · simp [hversion, hbits]
    · simp [hbits]
  · simp [hversion]

theorem RefcountHeader.parse_ok {bytes : List UInt8} {h : RefcountHeader}
    (he : parse (slice bytes 0 104) = .ok h) :
    72 ≤ bytes.length ∧ beAt bytes 0 4 = magic ∧ h.clusterBits = beAt bytes 20 4 ∧
      h.l1Size = beAt bytes 36 4 ∧ h.l1TableOffset = beAt bytes 40 8 ∧
      h.refcountTableOffset = beAt bytes 48 8 ∧ h.refcountTableClusters = beAt bytes 56 4 := by
  have hwindow := length_slice bytes 0 104
  simp only [parse, minHeaderSize] at he
  split_ifs at he with hshort hmagic
  -- the refcount order is the only field with a case of its own
  all_goals
    cases he
    have hlen : 72 ≤ bytes.length := by omega
    have hfield : ∀ {n off : Nat}, off + n ≤ 72 → beUint n (slice bytes 0 104) off = beAt bytes off n :=
      fun ho => beUint_header (by omega) hlen ho
    exact ⟨hlen, (hfield (by omega)).symm.trans (not_not.mp hmagic), hfield (by omega),
      hfield (by omega), hfield (by omega), hfield (by omega), hfield (by omega)⟩

/-- A refcount table with entries that does not lie wholly in the file. -/
def RtOutside (c : Content) (h : RefcountHeader) : Prop :=
  h.refcountTableOffset ≠ 0 ∧ h.rtEntries ≠ 0 ∧
    c.1.length < h.refcountTableOffset + h.rtEntries * 8

theorem tableIn_error_iff {M : Medium} {offset n : Nat} :
    (∃ e, tableIn M offset n = .error (.io e)) ↔
      offset ≠ 0 ∧ n ≠ 0 ∧ M.bytes.length < offset + n * 8 := by
  unfold tableIn
  by_cases hnone : n = 0 ∨ offset = 0
  · rw [if_pos hnone]
    simp only [reduceCtorEq, exists_false, false_iff]
    omega
  · rw [if_neg hnone]
    have hok : (∃ bs, M.readExactAt offset (n * 8) = .ok bs) ↔ _ :=
      M.readExactAt_isOk_iff (show 0 < n * 8 by omega)
    cases hr : M.readExactAt offset (n * 8) with
    | error e =>
      rw [hr] at hok
      simp only [reduceCtorEq, exists_false, false_iff] at hok
      simp only [Except.mapError, Except.map, Except.error.injEq, Qcow2Error.io.injEq,
        exists_eq', true_iff]
      omega
    | ok bs =>
      rw [hr] at hok
      simp only [Except.ok.injEq, exists_eq', true_iff] at hok
      simp only [Except.mapError, Except.map, reduceCtorEq, exists_false, false_iff]
      omega

theorem tableIn_cases (M : Medium) (offset n : Nat) :
    (∃ e, tableIn M offset n = .error (.io e)) ∨ ∃ table, tableIn M offset n = .ok table := by
  unfold tableIn
  split
  · exact .inr ⟨_, rfl⟩
  · cases M.readExactAt offset (n * 8) with
    | error e => exact .inl ⟨e, rfl⟩
    | ok bs => exact .inr ⟨_, rfl⟩

theorem tableIn_of_le {M : Medium} {offset n : Nat} (hoff : offset ≠ 0)
    (hin : offset + n * 8 ≤ M.bytes.length) :
    tableIn M offset n = .ok ((List.range n).map fun i => beAt M.bytes (offset + i * 8) 8) := by
  by_cases hz : n = 0
  · rw [tableIn, if_pos (.inl hz), hz]
    rfl
  · have hread := (M.readExactAt_eq_ok_iff (show 0 < n * 8 by omega)).mpr ⟨hin, rfl⟩
    rw [tableIn, if_neg (by omega), hread, ← beWords_slice hin]
    rfl

theorem refcountReport_header {c : Content} {report : Qcow2RefcountReport}
    (h : refcountReport (File.opened c) = .ok report) :
    ∃ hdr, RefcountHeader.parse (slice c.1 0 104) = .ok hdr := by
  rw [refcountReport_eq, scanOf, Medium.file_bytes] at h
  cases hp : RefcountHeader.parse (slice c.1 0 104) with
  | error e => simp [hp, Except.map] at h
  | ok hdr => exact ⟨hdr, rfl⟩

theorem refcountReport_error_iff {c : Content} {h : RefcountHeader}
    (hp : RefcountHeader.parse (slice c.1 0 104) = .ok h) :
    (∃ e, refcountReport (File.opened c) = .error (.io e)) ↔ h.refcountOrder ≤ 6 ∧ RtOutside c h := by
  rw [refcountReport_eq, scanOf, Medium.file_bytes, hp]
  by_cases hbig : 6 < h.refcountOrder
  · simp only [if_pos hbig, Except.map, reduceCtorEq, exists_false, false_iff]
    omega
  · have hout : RtOutside c h ↔ ∃ e, tableIn (Medium.file c) h.refcountTableOffset h.rtEntries =
        .error (.io e) := by
      rw [tableIn_error_iff, RtOutside, Medium.file_bytes]
    simp only [if_neg hbig, hout]
    rcases tableIn_cases (Medium.file c) h.refcountTableOffset h.rtEntries with ⟨e, he⟩ | ⟨t, ht⟩
    · simp only [he, Except.map, Except.error.injEq, Qcow2Error.io.injEq, exists_eq', and_true,
        true_iff]
      omega
    · simp [ht, Except.map]

theorem refcountReport_ok {c : Content} {h : RefcountHeader}
    (hp : RefcountHeader.parse (slice c.1 0 104) = .ok h)
    (hin : 6 < h.refcountOrder ∨ ¬ RtOutside c h) :
    ∃ report, refcountReport (File.opened c) = .ok report := by
  have herr := refcountReport_error_iff hp
  rw [refcountReport_eq, scanOf, Medium.file_bytes, hp] at herr ⊢
  by_cases hbig : 6 < h.refcountOrder
  · simp only [if_pos hbig]
    exact ⟨_, rfl⟩
  · simp only [if_neg hbig] at herr ⊢
    rcases tableIn_cases (Medium.file c) h.refcountTableOffset h.rtEntries with ⟨e, he⟩ | ⟨t, ht⟩
    · simp only [he, Except.map, Except.error.injEq, Qcow2Error.io.injEq, exists_eq',
        true_iff] at herr
      exact (hin.resolve_left hbig herr.2).elim
    · rw [ht]
      exact ⟨_, rfl⟩

end Qcow2
