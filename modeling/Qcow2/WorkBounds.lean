import Qcow2.CheckedRefines
import Qcow2.Audit
import Qcow2.FlatRuns
import Qcow2.StdIo.Metered

/-! How much of a source opening, reading and the probes ask for, whatever it holds. -/

namespace Qcow2

open StdIo

section Probes

variable {β : Type} [ReadSeek β] {work : β → Nat}

/-- The program behind `inspect`. -/
def inspectOf : EStateM Qcow2Error β Qcow2Info := do
  let hdrBuf ← io (readWindow 8192)
  fromResult (Qcow2Info.parse hdrBuf)

theorem inspect_eq_inspectOf (file : β) : inspect file = outcome (inspectOf.run file) := rfl

theorem inspectOf_spends (C : Counts work) :
    Spends work (inspectOf : EStateM Qcow2Error β Qcow2Info) (2 * 8192 + 1) fun _ => 0 :=
  ((C.fill 8192).adaptExcept _).bind fun _ => Spends.fromResult

theorem loadLayout_spends (C : Counts work) :
    Spends work (loadLayout : EStateM Qcow2Error β Layout) (2 ^ 24 + 211) fun _ => 0 := by
  have hwindow : Spends work (io (readWindow 104) : EStateM Qcow2Error β (List UInt8))
      (2 ^ 24 + 211) fun _ => 2 ^ 24 + 2 :=
    ((((C.fill 104).adaptExcept _).keep (2 ^ 24 + 2)).mono (by omega) fun _ => by omega)
  refine hwindow.bind fun hdrBuf => Spends.fromResult.bind fun hdr => ?_
  refine Spends.ite (fun _ => Spends.throw) fun hbig => ?_
  have hmax : maxL1Entries = 2 ^ 20 := rfl
  have hle : asUsize (hdr.l1Size * 8) ≤ hdr.l1Size * 8 := Nat.mod_le _ _
  exact (((C.readExactAt _ _).adaptExcept _).mono (by omega) fun _ => le_rfl).bind fun _ =>
    Spends.pure le_rfl

theorem readU64TableChecked_spends (C : Counts work) (offset n : Nat) :
    Spends work (readU64TableChecked offset n : EStateM Qcow2Error β (List Nat)) (16 * n + 2)
      fun _ => 0 :=
  Spends.ite (fun _ => Spends.pure (Nat.zero_le _)) fun _ =>
    (((C.readExactAt offset (n * 8)).adaptExcept _).mono (by omega) fun _ => le_rfl).bind
      fun _ => Spends.pure le_rfl

theorem readU64Table_spends (C : Counts work) (offset n k : Nat) :
    Spends work (readU64Table offset n : EStateM Qcow2Error β (List Nat)) (16 * n + 2 + k)
      fun _ => k :=
  (readU64TableChecked_spends C offset n).attempt.bind fun _ => Spends.pure le_rfl

theorem readU64Table_length (hread : ReadsWithin β) (offset n : Nat) :
    Ends (readU64Table offset n : EStateM Qcow2Error β (List Nat)) fun _ l _ => l.length ≤ n := by
  have hexact : Ends (readExactAt offset (n * 8) : EStateM IoError β (List UInt8))
      fun _ bs _ => bs.length ≤ n * 8 := by
    refine Ends.bind (P := fun _ _ _ => True) (fun _ _ _ _ => trivial) (fun _ => ?_)
      fun _ _ _ _ _ _ hbs => hbs
    refine Ends.bind (Q := fun bs _ out _ => bs.length ≤ n * 8 → out.length ≤ n * 8)
      (fillLoop_ends hread (n * 8) (n * 8)) (fun bs => ?_) fun _ _ _ _ _ h h' => h' h
    exact Ends.ite (fun _ _ _ _ hrun => by cases hrun) fun _ => Ends.pure fun _ h => h
  have hchecked : Ends (readU64TableChecked offset n : EStateM Qcow2Error β (List Nat))
      fun _ l _ => l.length ≤ n := by
    refine Ends.ite (fun _ => Ends.pure fun _ => Nat.zero_le _) fun _ => ?_
    refine (hexact.adaptExcept _).map fun _ bs _ hbs => ?_
    rw [length_beWords]
    omega
  refine (hchecked.attempt (R := fun _ o _ => (o.getD []).length ≤ n) (fun _ _ _ h => h)
    fun _ _ => Nat.zero_le _).map fun _ _ _ h => h

theorem readAt_spends (C : Counts work) (offset n k : Nat) (h : n ≤ 8) :
    Spends work (readAt offset n : EStateM Qcow2Error β (Option (List UInt8))) (18 + k)
      fun _ => k :=
  (C.readExactAt offset n).attempt.mono (by omega) fun _ => le_rfl

theorem refcountOf_spends (C : Counts work) (refcountTable : List Nat)
    (clusterIdx refcountBits clusterSize k : Nat) :
    Spends work (refcountOf refcountTable clusterIdx refcountBits clusterSize :
      EStateM Qcow2Error β (Option Nat)) (18 + k) fun _ => k := by
  have hone : ∀ offset n (f : Option (List UInt8) → Option Nat), n ≤ 8 →
      Spends work (do let o ← readAt offset n; return f o : EStateM Qcow2Error β (Option Nat))
        (18 + k) fun _ => k :=
    fun offset n f hn => (readAt_spends C offset n k hn).bind fun _ => Spends.pure le_rfl
  have hnone : ∀ o : Option Nat,
      Spends work (pure o : EStateM Qcow2Error β (Option Nat)) (18 + k) fun _ => k :=
    fun o => Spends.pure (Nat.le_add_left _ _)
  unfold refcountOf
  refine Spends.ite (fun _ => hnone _) fun _ => ?_
  dsimp only
  split
  · exact hnone _
  · refine Spends.ite (fun _ => hnone _) fun _ => ?_
    split
    all_goals first
      | exact hone _ _ (fun o => o.map _) (by omega)
      | exact hnone _

/-- What the cap on the examined clusters still allows to be looked up. -/
def lookupCredit (acc : Scan) : Nat := 18 * (maxClustersScanned - acc.allocatedClusters)

theorem scanL2_spends (C : Counts work) (refcountTable : List Nat) (refcountBits clusterSize : Nat)
    (l2 : List Nat) (acc : Scan) (k : Nat) :
    Spends work (scanL2 refcountTable refcountBits clusterSize l2 acc :
        EStateM Qcow2Error β (Scan × Bool))
      (lookupCredit acc + k) fun r => lookupCredit r.1 + k := by
  induction l2 generalizing acc with
  | nil => exact Spends.pure le_rfl
  | cons l2Entry rest ih =>
    rw [scanL2]
    refine Spends.ite (fun _ => ih acc) fun _ => Spends.ite (fun _ => ih acc) fun _ => ?_
    dsimp only
    refine Spends.ite (fun _ => ih acc) fun _ => Spends.ite (fun _ => ?_) fun hcap => ?_
    · refine Spends.pure ?_
      simp only [lookupCredit]
      omega
    · refine ((refcountOf_spends C refcountTable _ refcountBits clusterSize
        (18 * (maxClustersScanned - (acc.allocatedClusters + 1)) + k)).mono ?_
          fun _ => le_rfl).bind fun refcount => ih _
      simp only [lookupCredit]
      omega

/-- The cap bounds the lookups, not the tables: each L1 entry has its L2 table loaded. -/
theorem scanL1_spends (C : Counts work) (refcountTable : List Nat) (refcountBits : Nat)
    {clusterSize : Nat} (hcs : clusterSize ≤ 2 ^ 20) (l1Table : List Nat) (acc : Scan) :
    Spends work (scanL1 refcountTable refcountBits clusterSize l1Table acc :
        EStateM Qcow2Error β Scan)
      (lookupCredit acc + l1Table.length * (2 * clusterSize + 2)) fun _ => 0 := by
  have hentries : 16 * asUsize (clusterSize / 8) ≤ 2 * clusterSize := by
    rw [asUsize_of_lt (by omega)]
    omega
  induction l1Table generalizing acc with
  | nil => exact Spends.pure (Nat.zero_le _)
  | cons l1Entry rest ih =>
    rw [scanL1, List.length_cons, Nat.succ_mul]
    dsimp only
    refine Spends.ite (fun _ => (ih acc).mono (by omega) fun _ => le_rfl) fun _ => ?_
    refine ((readU64Table_spends C _ (asUsize (clusterSize / 8))
      (lookupCredit acc + rest.length * (2 * clusterSize + 2))).mono (by omega)
        fun _ => le_rfl).bind fun l2 => ?_
    refine (scanL2_spends C refcountTable refcountBits clusterSize l2 acc _).bind fun r => ?_
    exact Spends.ite (fun _ => Spends.pure (Nat.zero_le _)) fun _ => ih r.1

theorem refcountScan_spends (C : Counts work) :
    Spends work (refcountScan : EStateM Qcow2Error β (Qcow2RefcountReport × List Nat))
      (2 ^ 41 + 2 ^ 29) fun _ => 0 := by
  have hmax : maxL1Entries = 2 ^ 20 := rfl
  have hcap : lookupCredit ⟨0, 0, []⟩ = 18 * 2 ^ 24 := rfl
  have hheader : Spends work (io (ReadSeek.read 104) : EStateM Qcow2Error β (List UInt8))
      (2 ^ 41 + 2 ^ 29) fun _ => 2 ^ 41 + 2 ^ 29 - 105 :=
    (((C.read 104).adaptExcept _).keep (2 ^ 41 + 2 ^ 29 - 105)).mono (by omega) fun _ => by omega
  refine hheader.bind fun hdr => Spends.fromResult.bind fun h => ?_
  refine Spends.ite (fun _ => Spends.pure (Nat.zero_le _)) fun _ => ?_
  have hcs : h.clusterSize ≤ 2 ^ 20 := by
    rw [RefcountHeader.clusterSize, Nat.one_shiftLeft]
    exact Nat.pow_le_pow_right (by omega) h.clusterBits_range.2
  have hrt : h.rtEntries ≤ 2 ^ 20 := Nat.min_le_right _ _
  have hl1 : h.l1Entries ≤ 2 ^ 20 := Nat.min_le_right _ _
  have htables : h.l1Entries * (2 * h.clusterSize + 2) ≤ 2 ^ 20 * (2 * 2 ^ 20 + 2) :=
    Nat.mul_le_mul hl1 (by omega)
  refine (((readU64TableChecked_spends C _ h.rtEntries).keep (2 ^ 41 + 2 ^ 29 - 2 ^ 25)).mono
    (by omega) fun _ => le_rfl).bind fun refcountTable => ?_
  refine ((readU64Table_spends C h.l1TableOffset h.l1Entries
    (lookupCredit ⟨0, 0, []⟩ + h.l1Entries * (2 * h.clusterSize + 2))).mono (by omega)
      fun _ => le_rfl).bind_of (P := fun l => l.length ≤ h.l1Entries)
        (readU64Table_length C.within _ _) fun l1Table hlen => ?_
  have hscan := Nat.mul_le_mul_right (2 * h.clusterSize + 2) hlen
  exact ((scanL1_spends C refcountTable h.refcountBits hcs l1Table ⟨0, 0, []⟩).mono (by omega)
    fun _ => le_rfl).bind fun _ => Spends.pure le_rfl

end Probes

section Table

variable {β : Type} [FileSource β] {work : β → Nat}

theorem skip_spends (C : CountsFile work) (n : Nat) :
    Spends work (skip n : EStateM IoError β Unit) 3 fun _ => 0 := by
  refine (C.fileLen.keep 2).bind fun len => ?_
  refine (((C.seek (.current 0)).keep 1).mono (by omega) fun _ => le_rfl).bind fun pos => ?_
  refine Spends.ite (fun _ => Spends.throw) fun _ => ?_
  exact ((C.seek _).mono (by omega) fun _ => le_rfl).bind fun _ => Spends.pure le_rfl

theorem skipped_spends (C : CountsFile work) (c : Prop) [Decidable c] (n k : Nat) :
    Spends work (if c then attempt (skip n) else return some () :
      EStateM Qcow2Error β (Option Unit)) (3 + k) fun _ => k :=
  Spends.ite (fun _ => (skip_spends C n).attempt) fun _ => Spends.pure (Nat.le_add_left _ _)

theorem readString_spends (C : CountsFile work) {len : Nat} (hlen : len ≤ 65536) (k : Nat) :
    Spends work (readString len : EStateM Qcow2Error β (Option String)) (131073 + k)
      fun _ => k := by
  refine Spends.ite (fun _ => Spends.pure (Nat.le_add_left _ _)) fun _ => ?_
  refine ((C.readExact len).attempt (k := k) |>.mono (by omega) fun _ => le_rfl).bind fun o => ?_
  cases o <;> exact Spends.pure le_rfl

theorem readSnapshot_spends (C : CountsFile work) (k : Nat) :
    Spends work (readSnapshot : EStateM Qcow2Error β (Option Qcow2Snapshot)) (262233 + k)
      fun _ => k := by
  have hfixed : snapshotHeaderFixed = 40 := rfl
  have hnone : ∀ {m : Nat}, Spends work (pure none :
      EStateM Qcow2Error β (Option Qcow2Snapshot)) (m + k) fun _ => k :=
    fun {m} => Spends.pure (Nat.le_add_left _ _)
  refine ((C.readExact snapshotHeaderFixed).attempt.mono (show _ + (262152 + k) ≤ _ by omega)
    fun _ => le_rfl).bind fun fixed => ?_
  cases fixed with
  | none => exact hnone
  | some fixed =>
    dsimp only
    refine ((skipped_spends C _ _ (262149 + k)).mono (by omega) fun _ => le_rfl).bind
      fun skipped => ?_
    cases skipped with
    | none => exact hnone
    | some _ =>
      dsimp only
      refine ((readString_spends C (Nat.min_le_right _ _) (131076 + k)).mono (by omega)
        fun _ => le_rfl).bind fun id => ?_
      cases id with
      | none => exact hnone
      | some id =>
        dsimp only
        refine ((readString_spends C (Nat.min_le_right _ _) (3 + k)).mono (by omega)
          fun _ => le_rfl).bind fun name => ?_
        cases name with
        | none => exact hnone
        | some name => exact (skipped_spends C _ _ k).bind fun _ => Spends.pure le_rfl

theorem readSnapshots_spends (C : CountsFile work) (n : Nat) :
    Spends work (readSnapshots n : EStateM Qcow2Error β (List Qcow2Snapshot)) (n * 262233)
      fun _ => 0 := by
  induction n with
  | zero => exact Spends.pure (Nat.zero_le _)
  | succ n ih =>
    rw [Nat.succ_mul]
    refine ((readSnapshot_spends C (n * 262233)).mono (by omega) fun _ => le_rfl).bind fun o => ?_
    cases o with
    | none => exact Spends.pure (Nat.zero_le _)
    | some s => exact ih.bind fun _ => Spends.pure le_rfl

theorem snapshotsOf_spends (C : CountsFile work) :
    Spends work (snapshotsOf : EStateM Qcow2Error β (List Qcow2Snapshot)) (2 ^ 35) fun _ => 0 := by
  have hheader : Spends work (io (ReadSeek.read 104) : EStateM Qcow2Error β (List UInt8))
      (2 ^ 35) fun _ => 2 ^ 35 - 105 :=
    (((C.read 104).adaptExcept _).keep (2 ^ 35 - 105)).mono (by omega) fun _ => by omega
  refine hheader.bind fun hdr => ?_
  refine Spends.ite (fun _ => Spends.throw) fun _ => Spends.ite (fun _ => Spends.throw) fun _ => ?_
  refine Spends.ite (fun _ => Spends.pure (Nat.zero_le _)) fun _ => ?_
  have hcount : min (beU32 hdr 60) maxSnapshots ≤ 65536 := Nat.min_le_right _ _
  exact ((((C.seek (.start (beU64 hdr 64))).adaptExcept _).keep (65536 * 262233)).mono (by omega)
    fun _ => le_rfl).bind fun _ => (readSnapshots_spends C _).mono (by omega) fun _ => le_rfl

end Table

namespace Qcow2Reader

variable {β : Type} [ReadSeek β] {work : β → Nat} (inflate : Inflate)

/-- A compressed window is never longer than `2 ^ 28` bytes. -/
def WindowBounded : ClusterRef → Prop
  | .compressed _ n => n ≤ 2 ^ 28
  | _ => True

theorem windowBounded_refOfEntry (L : Layout) (e : Nat) :
    WindowBounded (refOfEntry L.clusterSize e) := by
  obtain ⟨hlow, hhigh⟩ := L.clusterBits_range
  have hpow : 2 ^ (L.clusterBits - 1) ≤ 2 ^ 19 := Nat.pow_le_pow_right (by omega) (by omega)
  have hlt : e / 2 ^ (63 - L.clusterBits) % 2 ^ (L.clusterBits - 1) < 2 ^ (L.clusterBits - 1) :=
    Nat.mod_lt _ (by positivity)
  rw [L.refOfEntry_eq, GuestMap.entryRef]
  split
  · exact show (e / 2 ^ (63 - L.clusterBits) % 2 ^ (L.clusterBits - 1) + 1) * 512 ≤ 2 ^ 28 by omega
  · split
    · trivial
    · split <;> trivial

omit [ReadSeek β] in
theorem onBacking_spends {α : Type} {x : EStateM IoError β α} {credit : Nat} {left : α → Nat}
    (h : Spends work x credit left) :
    Spends (fun r : Qcow2Reader β => work r.backing) (onBacking x) credit left :=
  h.zoom (fun _ => rfl) fun _ _ => rfl

theorem clusterRefFor_spends (C : Counts work) (v k : Nat) :
    Spends (fun r : Qcow2Reader β => work r.backing) (clusterRefFor v) (18 + k) fun _ => k := by
  refine Spends.get_bind fun r => ?_
  dsimp only
  refine Spends.ite (fun _ => Spends.pure (Nat.le_add_left _ _)) fun _ => ?_
  exact (((onBacking_spends (C.readExactAt _ 8)).keep k).mono (by omega) fun _ => by omega).bind
    fun _ => Spends.pure le_rfl

theorem clusterRefFor_windowBounded (v : Nat) :
    Ends (clusterRefFor v : EStateM IoError (Qcow2Reader β) ClusterRef)
      fun _ c _ => WindowBounded c := by
  apply Ends.get_bind
  intro r c t hrun
  dsimp only at hrun
  split_ifs at hrun with hzero
  · cases hrun
    trivial
  · exact (onBacking_ends _).map (R := fun _ c _ => WindowBounded c)
      (fun _ _ _ _ => windowBounded_refOfEntry r.toLayout _) r c t hrun

theorem readCluster_spends (C : Counts work) (j m : Nat) {c : ClusterRef} (hc : WindowBounded c) :
    Spends (fun r : Qcow2Reader β => work r.backing) (readCluster inflate j m c)
      (m + 2 + 2 ^ 29) fun _ => 0 := by
  cases c with
  | unallocated => exact Spends.pure (Nat.zero_le _)
  | zeroCluster => exact Spends.pure (Nat.zero_le _)
  | normal o =>
    refine (((onBacking_spends (C.seek _)).keep (m + 1)).mono (by omega) fun _ => le_rfl).bind
      fun _ => ?_
    exact (onBacking_spends (C.read m)).mono (by omega) fun _ => Nat.zero_le _
  | compressed off n =>
    have hn : n ≤ 2 ^ 28 := hc
    refine Spends.bind (Spends.get_bind fun r => ?_) fun _ => Spends.pure le_rfl
    exact ((onBacking_spends (C.fillAt off n)).mono (by omega) fun _ => le_rfl).bind fun _ =>
      Spends.fromResult.bind fun _ => Spends.pure le_rfl

theorem read_spends (C : Counts work) (buf : List UInt8) :
    Spends (fun r : Qcow2Reader β => work r.backing) (read inflate buf)
      (buf.length + 2 ^ 29 + 20) fun _ => 0 := by
  refine Spends.bind (Spends.get_bind fun r => ?_) fun _ => Spends.pure le_rfl
  refine Spends.ite (fun _ => Spends.pure (Nat.zero_le _)) fun _ => ?_
  dsimp only
  refine ((clusterRefFor_spends C r.pos (buf.length + 2 + 2 ^ 29)).mono (by omega)
    fun _ => le_rfl).bind_of (clusterRefFor_windowBounded r.pos) fun c hc => ?_
  refine ((readCluster_spends inflate C _ _ hc).mono (by omega) fun _ => le_rfl).bind fun bytes => ?_
  have hmoved : Spends (fun r : Qcow2Reader β => work r.backing)
      (modify fun r => { r with pos := r.pos + bytes.length } :
        EStateM IoError (Qcow2Reader β) PUnit) 0 fun _ => 0 :=
    Spends.modify fun _ => le_rfl
  exact hmoved.bind fun _ => Spends.pure le_rfl

omit [ReadSeek β] in
theorem seek_backing (w : SeekFrom) (r : Qcow2Reader β) : (answer (seek w) r).2.backing = r.backing := by
  unfold seek
  by_cases hneg : seekTarget r.virtualDiskSize r.pos w < 0
  · simp [answer, hneg]
  · simp [answer, hneg]

/-- What one call may ask of the backing. -/
def workOf : Call → Nat
  | .seek _ => 0
  | .read buf => buf.length + 2 ^ 29 + 20

theorem call_work (C : Counts work) (c : Call) (r : Qcow2Reader β) :
    work (call inflate c r).2.backing ≤ work r.backing + workOf c := by
  cases c with
  | seek w => exact (congrArg work (seek_backing w r)).le
  | read buf =>
    have hspent := (read_spends inflate C buf).spent r
    simp only [call, answer, Prod.map, id]
    cases hrun : (read inflate buf).run r with
    | ok a t =>
      rw [hrun] at hspent
      exact hspent
    | error e t =>
      rw [hrun] at hspent
      exact hspent

end Qcow2Reader

/-- Whatever a source holds and returns: the calls and the bytes that opening, inspecting,
the snapshot table, the refcount report and any history of reads take from it. -/
theorem work_is_bounded {β : Type} [FileSource β] {work : β → Nat} (C : CountsFile work)
    (inflate : Inflate) :
    (∀ b : β, work (Spends.leftBy (loadLayout.run b)) ≤ work b + (2 ^ 24 + 211) ∧
      work (Spends.leftBy (inspectOf.run b)) ≤ work b + (2 ^ 14 + 1) ∧
      work (Spends.leftBy (snapshotsOf.run b)) ≤ work b + 2 ^ 35 ∧
      work (Spends.leftBy (refcountScan.run b)) ≤ work b + (2 ^ 41 + 2 ^ 29)) ∧
    ∀ (r : Qcow2Reader β) (cs : List Call), work ((Qcow2Reader.call inflate).run cs r).2.backing ≤
      work r.backing + (cs.map Qcow2Reader.workOf).sum := by
  refine ⟨fun b => ⟨(loadLayout_spends C.toCounts).spent b, (inspectOf_spends C.toCounts).spent b,
    (snapshotsOf_spends C).spent b, (refcountScan_spends C.toCounts).spent b⟩, ?_⟩
  intro r cs
  induction cs generalizing r with
  | nil => exact le_rfl
  | cons c cs ih =>
    have hstep := Qcow2Reader.call_work inflate C.toCounts c r
    have hrest := ih (Qcow2Reader.call inflate c r).2
    simp only [Machine.run, List.map_cons, List.sum_cons]
    omega

theorem onFile_keeps_calls {α : Type} (x : EStateM IoError File α) :
    Spends ShortFile.calls (ShortFile.onFile x) 1 fun _ => 0 := by
  intro n
  refine Triple.zoom_frame ?_ ?_
  · exact fun s _ _ hs => show s.calls + 0 ≤ n by omega
  · exact fun s _ hs => show s.calls ≤ n by omega

theorem countsFile_calls : CountsFile ShortFile.calls where
  within := by
    intro n s s' bs hrun
    cases hrun
    exact (List.take_prefix _ _).length_le.trans (length_slice_le _ _ _)
  uninterrupted := by
    intro n s s' e hrun
    cases hrun
  read := by
    intro n m s hs
    exact show s.calls + 1 + (n - _) ≤ m by omega
  seek := fun w => onFile_keeps_calls _
  fileLen := onFile_keeps_calls _

/-- A whole image, served at most 104 bytes at a time. -/
theorem work_is_bounded_sample :
    (refcountReport (ShortFile.opened evidenceFile fun _ => 104)).toOption.map
        (fun report => (report.allocatedClusters, report.orphanClusters)) = some (2, 1) ∧
      (Spends.leftBy (refcountScan.run (ShortFile.opened evidenceFile fun _ => 104))).calls ≤
        2 ^ 41 + 2 ^ 29 := by
  have hbound := ((work_is_bounded countsFile_calls .ok).1
    (ShortFile.opened evidenceFile fun _ => 104)).2.2.2
  rw [show (ShortFile.opened evidenceFile fun _ => 104).calls = 0 from rfl, Nat.zero_add] at hbound
  exact ⟨by decide +kernel, hbound⟩

end Qcow2
