import Qcow2.SnapshotEncoding

/-! The VM state size of a snapshot, which the record stores in 32 bits and, with enough
extra data, again in 64. -/

namespace Qcow2

open StdIo

namespace SnapshotRecord

/-- The size in the first eight bytes of the extra data. -/
def vmStateSize64 (r : SnapshotRecord) : Nat := beAt r.extraData 0 8

/-- Zero only where there is no state, and exact below `2 ^ 32`. -/
def ReportedBy (r : SnapshotRecord) (s : Qcow2Snapshot) : Prop :=
  (s.vmStateSize = 0 → r.vmStateSize64 = 0) ∧
    (r.vmStateSize64 < 2 ^ 32 → s.vmStateSize = r.vmStateSize64)

theorem reportedBy_decoded_iff (r : SnapshotRecord) : r.ReportedBy r.decoded ↔
    if r.vmStateSize64 < 2 ^ 32 then r.vmStateSize.toNat = r.vmStateSize64
    else r.vmStateSize.toNat ≠ 0 := by
  simp only [ReportedBy, decoded]
  split <;> omega

end SnapshotRecord

theorem decoded_of_getElem? {rs : List SnapshotRecord} {n k : Nat} {s : Qcow2Snapshot}
    {r : SnapshotRecord} (hs : ((rs.take n).map SnapshotRecord.decoded)[k]? = some s)
    (hr : rs[k]? = some r) : s = r.decoded := by
  rw [List.getElem?_map, Option.map_eq_some_iff] at hs
  obtain ⟨r', hr', rfl⟩ := hs
  rw [List.getElem?_take] at hr'
  split at hr'
  · rw [hr] at hr'
    rw [Option.some.inj hr']
  · cases hr'

/-- A record's VM state is reported as its 64-bit size says exactly when its 32-bit field
agrees: equal to a size below `2 ^ 32`, not zero otherwise. -/
theorem vm_state_reported_iff {c : Content} {rs : List SnapshotRecord} (h : HoldsTable c rs) :
    ∃ l, snapshots (File.opened c) = .ok l ∧ l.length = min maxSnapshots rs.length ∧
      ∀ (k : Nat) (s : Qcow2Snapshot) (r : SnapshotRecord), l[k]? = some s → rs[k]? = some r →
        8 ≤ r.extraData.length → (r.ReportedBy s ↔
          if r.vmStateSize64 < 2 ^ 32 then r.vmStateSize.toNat = r.vmStateSize64
          else r.vmStateSize.toNat ≠ 0) := by
  refine ⟨_, snapshots_encoded h, by rw [List.length_map, List.length_take], ?_⟩
  intro k s r hs hr _
  rw [decoded_of_getElem? hs hr]
  exact r.reportedBy_decoded_iff

/-- 4 GiB of VM state, its 32-bit field left at zero. -/
def largeStateRecord : SnapshotRecord where
  l1TableOffset := 512
  l1Size := 1
  dateSec := 1700000000
  dateNsec := 0
  vmClockNsec := 5
  vmStateSize := 0
  extraData := beBytes 8 (2 ^ 32) ++ beBytes 8 512
  id := "3"
  name := "running"
  extraData_le := by decide
  id_le := by decide +kernel
  name_le := by decide +kernel

def largeStateImage : Content :=
  ⟨snapshotHeader 3 1 104 ++ headerTail 0 4 ++ encodeTable [largeStateRecord], by
    decide +kernel⟩

theorem largeStateImage_holds : HoldsTable largeStateImage [largeStateRecord] where
  header := by decide +kernel
  magic_eq := by decide +kernel
  count := by decide +kernel
  offset := by decide +kernel
  stored := .inl (by decide +kernel)

theorem vm_state_reported_iff_sample : ∃ l, snapshots (File.opened largeStateImage) = .ok l ∧
    l.length = min maxSnapshots [largeStateRecord].length ∧
    ∀ (k : Nat) (s : Qcow2Snapshot) (r : SnapshotRecord), l[k]? = some s →
      [largeStateRecord][k]? = some r → 8 ≤ r.extraData.length → (r.ReportedBy s ↔
        if r.vmStateSize64 < 2 ^ 32 then r.vmStateSize.toNat = r.vmStateSize64
        else r.vmStateSize.toNat ≠ 0) :=
  vm_state_reported_iff largeStateImage_holds

theorem large_state_reported_as_none : HoldsTable largeStateImage [largeStateRecord] ∧
    8 ≤ largeStateRecord.extraData.length ∧ largeStateRecord.vmStateSize64 = 2 ^ 32 ∧
    ∃ s, snapshots (File.opened largeStateImage) = .ok [s] ∧ s.vmStateSize = 0 ∧
      ¬ largeStateRecord.ReportedBy s := by
  have hsize : largeStateRecord.vmStateSize64 = 2 ^ 32 := by decide +kernel
  refine ⟨largeStateImage_holds, by decide, hsize, _, snapshots_encoded largeStateImage_holds, rfl, ?_⟩
  intro h
  rw [SnapshotRecord.reportedBy_decoded_iff, if_neg (by rw [hsize]; decide)] at h
  exact h rfl

end Qcow2
