import Qcow2.Allocation

/-! The bits of a table entry that the reader takes for an offset, against the field
that the refcount walk accounts for. -/

namespace Qcow2

open StdIo

theorem entryOffset_eq_iff {e m : Nat} (hm : 56 ≤ m) :
    entryOffset e = e % 2 ^ m ↔ ∀ i, i < 9 ∨ 56 ≤ i ∧ i < m → e.testBit i = false := by
  constructor
  · intro h i hi
    have hbit := congrArg (fun x => x.testBit i) h
    simp only [entryOffset, Nat.testBit_mul_two_pow, Nat.testBit_div_two_pow,
      Nat.testBit_mod_two_pow] at hbit
    rcases hi with hlow | ⟨hmid, hhigh⟩
    · simpa [show ¬ 9 ≤ i by omega, show i < m by omega] using hbit.symm
    · simpa [show ¬ i - 9 + 9 < 56 by omega, hhigh] using hbit.symm
  · exact entryOffset_eq hm

theorem entryOffset_le_mod {e m : Nat} (hm : 56 ≤ m) : entryOffset e ≤ e % 2 ^ m := by
  have hmod : e % 2 ^ 56 = e % 2 ^ m % 2 ^ 56 :=
    (Nat.mod_mod_of_dvd e (Nat.pow_dvd_pow 2 hm)).symm
  rw [entryOffset]
  calc e % 2 ^ 56 / 2 ^ 9 * 2 ^ 9 ≤ e % 2 ^ 56 := Nat.div_mul_le_self _ _
    _ = e % 2 ^ m % 2 ^ 56 := hmod
    _ ≤ e % 2 ^ m := Nat.mod_le _ _

def lookupsIn {α : Type} (lookups : α → List Nat) (walk : EStateM Qcow2Error File α) (c : Content) :
    Except Qcow2Error (List Nat) :=
  (outcome (walk.run (File.opened c))).map lookups

/-- The lookup goes through bits 9 to 55 of both entries, and what it serves is what the
walk has looked up. -/
structure FollowsOffsetField (e₁ e₂ : Nat) : Prop where
  table : ∀ (c : Content) (L : Layout) (p v : Nat) (r : Qcow2Reader File),
    Qcow2Reader.At (File.On c) L p r → v < 2 ^ 64 →
    L.guestMap.l1 (v / L.guestMap.clusterSize / L.guestMap.slots) = some e₁ →
      outcome ((Qcow2Reader.clusterRefFor v).run r) =
        if e₁ &&& offsetMask = 0 then .ok .unallocated
        else ((Medium.file c).readExactAt
          ((e₁ &&& offsetMask) + v / L.guestMap.clusterSize % L.guestMap.slots * 8) 8).map
            fun bs => Qcow2Reader.refOfEntry L.clusterSize (beNat bs)
  host : ∀ L : Layout, Qcow2Reader.refOfEntry L.clusterSize e₂ =
    if e₂ &&& offsetMask = 0 then .unallocated else .normal (e₂ &&& offsetMask)
  walkTable : ∀ (c : Content) (L : Layout) (refcountTable : List Nat) (order : Nat), order ≤ 6 →
    lookupsIn Scan.lookups (scanL1 refcountTable (1 <<< order) L.clusterSize [e₁] ⟨0, 0, []⟩) c =
      .ok (if e₁ &&& offsetMask = 0 then []
        else ((tableIn (Medium.file c) (e₁ &&& offsetMask) (L.clusterSize / 8)).toOption.getD
          []).filterMap hostOf)
  walkHost : ∀ (c : Content) (L : Layout) (refcountTable : List Nat) (order : Nat), order ≤ 6 →
    lookupsIn (fun x => x.1.lookups)
        (scanL2 refcountTable (1 <<< order) L.clusterSize [e₂] ⟨0, 0, []⟩) c =
      .ok (Qcow2Reader.refOfEntry L.clusterSize e₂).normal?.toList

theorem length_tableIn_le (M : Medium) (offset n : Nat) :
    ((tableIn M offset n).toOption.getD []).length ≤ n := by
  unfold tableIn
  split
  · exact Nat.zero_le n
  · cases hr : M.readExactAt offset (n * 8) with
    | error e => exact Nat.zero_le n
    | ok bs =>
      obtain ⟨-, rfl⟩ := (M.readExactAt_eq_ok_iff (show 0 < n * 8 by omega)).mp hr
      have hle := length_slice_le M.bytes offset (n * 8)
      simp only [Except.mapError, Except.map, Except.toOption, Option.getD_some, length_beWords]
      omega

theorem scanL1_singleton (c : Content) (L : Layout) (refcountTable : List Nat) {order : Nat}
    (horder : order ≤ 6) (e : Nat) :
    lookupsIn Scan.lookups (scanL1 refcountTable (1 <<< order) L.clusterSize [e] ⟨0, 0, []⟩) c =
      .ok (if e &&& offsetMask = 0 then []
        else ((tableIn (Medium.file c) (e &&& offsetMask) (L.clusterSize / 8)).toOption.getD
          []).filterMap hostOf) := by
  have hle := L.clusterSize_le
  have hmax : maxClustersScanned = 2 ^ 24 := rfl
  have hscan := (scanL1_computes (serves_file c) refcountTable horder
    (show L.clusterSize < 2 ^ 64 by omega) [e] ⟨0, 0, []⟩).outcome_eq ⟨0, File.on_opened c⟩
  rw [lookupsIn, hscan, account_eq _ (Nat.zero_le _), land_offsetMask]
  simp only [candidates, List.flatMap_cons, List.flatMap_nil, List.append_nil, List.nil_append,
    Except.map, Nat.sub_zero, Except.ok.injEq]
  apply List.take_of_length_le
  split
  · exact Nat.zero_le _
  · have htable := length_tableIn_le (Medium.file c) (entryOffset e) (L.clusterSize / 8)
    have hhosts := List.length_filterMap_le hostOf
      ((tableIn (Medium.file c) (entryOffset e) (L.clusterSize / 8)).toOption.getD [])
    omega

theorem scanL2_singleton (c : Content) (L : Layout) (refcountTable : List Nat) {order : Nat}
    (horder : order ≤ 6) (e : Nat) :
    lookupsIn (fun x => x.1.lookups)
        (scanL2 refcountTable (1 <<< order) L.clusterSize [e] ⟨0, 0, []⟩) c =
      .ok (hostOf e).toList := by
  have hscan := (scanL2_computes (serves_file c) refcountTable horder L.clusterSize [e]
    ⟨0, 0, []⟩).outcome_eq ⟨0, File.on_opened c⟩
  rw [lookupsIn, hscan]
  cases hh : hostOf e with
  | none => simp [hh, account, Except.map]
  | some o => simp [hh, account, Except.map, maxClustersScanned]

theorem refOfEntry_eq_iff {e : Nat} (hc : e.testBit 62 = false) (hz : e.testBit 0 = false) (L : Layout) :
    Qcow2Reader.refOfEntry L.clusterSize e =
        (if e &&& offsetMask = 0 then .unallocated else .normal (e &&& offsetMask)) ↔
      entryOffset e = e % 2 ^ 62 := by
  have hodd : ¬ e % 2 = 1 := by simpa [Nat.testBit_zero] using hz
  have hle : entryOffset e ≤ e % 2 ^ 62 := entryOffset_le_mod (by omega)
  rw [L.refOfEntry_eq, GuestMap.entryRef, if_neg (by simp [hc]), if_neg hodd, land_offsetMask]
  constructor
  · intro h
    split_ifs at h with hlong hshort
    · omega
    · exact (ClusterRef.normal.inj h).symm
  · intro h
    rw [h]

def singleEntryReader (c : Content) (e : Nat) (he : e < 2 ^ 64) : Qcow2Reader File where
  clusterBits := 9
  virtualDiskSize := 512
  clusterSize := 512
  l1Table := [e]
  l2Bits := 6
  l2Mask := 63
  clusterBits_range := by decide
  virtualDiskSize_lt := by decide
  clusterSize_eq := rfl
  l2Bits_eq := rfl
  l2Mask_eq := rfl
  l1Table_lt := by simpa using he
  backing := File.opened c
  pos := 0

theorem clusterRefFor_slot (c : Content) (L : Layout) {p v e : Nat} {r : Qcow2Reader File}
    (hr : Qcow2Reader.At (File.On c) L p r) (hv : v < 2 ^ 64)
    (he : L.guestMap.l1 (v / L.guestMap.clusterSize / L.guestMap.slots) = some e) :
    outcome ((Qcow2Reader.clusterRefFor v).run r) =
      if e % 2 ^ 63 = 0 then .ok .unallocated
      else ((Medium.file c).readExactAt
        (e % 2 ^ 63 + v / L.guestMap.clusterSize % L.guestMap.slots * 8) 8).map
          fun bs => Qcow2Reader.refOfEntry L.clusterSize (beNat bs) := by
  rw [(Qcow2Reader.clusterRefFor_computes (serves_file c) L p hv).outcome_eq hr, GuestMap.cluster,
    GuestMap.l2Table, he, Option.getD_some]
  simp only [L.refOfEntry_eq]

/-- In a file that ends with the first slot of the table at the offset field, a lookup
anywhere behind it fails. -/
theorem entryOffset_of_table {e₁ e₂ : Nat} (he₁ : e₁ < 2 ^ 64) (h : FollowsOffsetField e₁ e₂) :
    entryOffset e₁ = e₁ % 2 ^ 63 := by
  have hle : entryOffset e₁ ≤ e₁ % 2 ^ 63 := entryOffset_le_mod (by omega)
  have hlt : entryOffset e₁ < 2 ^ 56 :=
    (entryOffset_le_mod (le_refl 56)).trans_lt (Nat.mod_lt _ (by positivity))
  by_contra hne
  let c : Content := ⟨List.replicate (entryOffset e₁ + 8) 0, by rw [List.length_replicate]; omega⟩
  have hlen : (Medium.file c).bytes.length = entryOffset e₁ + 8 := List.length_replicate
  have hat : Qcow2Reader.At (File.On c) (singleEntryReader c e₁ he₁).toLayout 0
      (singleEntryReader c e₁ he₁) := ⟨rfl, rfl, 0, File.on_opened c⟩
  have hl1 : ∀ cs slots, (singleEntryReader c e₁ he₁).guestMap.l1 (0 / cs / slots) = some e₁ := by
    intro cs slots
    rw [Nat.zero_div, Nat.zero_div]
    rfl
  have hfield := h.table c _ 0 0 _ hat (by decide) (hl1 _ _)
  have hslot := clusterRefFor_slot c _ hat (show 0 < 2 ^ 64 by decide) (hl1 _ _)
  have hfar : ∀ bs, (Medium.file c).readExactAt (e₁ % 2 ^ 63 + 0) 8 ≠ .ok bs := by
    intro bs hok
    have hin := (((Medium.file c).readExactAt_eq_ok_iff (by decide)).mp hok).1
    omega
  have hnear := ((Medium.file c).readExactAt_eq_ok_iff (by decide)).mpr
    ⟨show entryOffset e₁ + 0 + 8 ≤ _ by omega, rfl⟩
  rw [hslot, land_offsetMask, if_neg (show ¬ e₁ % 2 ^ 63 = 0 by omega)] at hfield
  simp only [Nat.zero_div, Nat.zero_mod, Nat.zero_mul] at hfield
  rw [hnear] at hfield
  cases hread : (Medium.file c).readExactAt (e₁ % 2 ^ 63 + 0) 8 with
  | ok bs => exact hfar bs hread
  | error e =>
    rw [hread] at hfield
    split at hfield <;> cases hfield

/-- For every L1 entry and every uncompressed L2 entry without the zero flag, the
reader follows the offset fields exactly when no reserved bit is set. -/
theorem follows_offset_field_iff {e₁ e₂ : Nat} (he₁ : e₁ < 2 ^ 64) (hc : e₂.testBit 62 = false)
    (hz : e₂.testBit 0 = false) :
    FollowsOffsetField e₁ e₂ ↔
      (∀ i, i ≤ 8 ∨ 56 ≤ i ∧ i ≤ 62 → e₁.testBit i = false) ∧
        ∀ i, 1 ≤ i ∧ i ≤ 8 ∨ 56 ≤ i ∧ i ≤ 61 → e₂.testBit i = false := by
  have hbits₁ : entryOffset e₁ = e₁ % 2 ^ 63 ↔ _ := entryOffset_eq_iff (show 56 ≤ 63 by omega)
  have hbits₂ : entryOffset e₂ = e₂ % 2 ^ 62 ↔ _ := entryOffset_eq_iff (show 56 ≤ 62 by omega)
  constructor
  · intro h
    have hfield₁ := hbits₁.mp (entryOffset_of_table he₁ h)
    have hfield₂ := hbits₂.mp
      ((refOfEntry_eq_iff hc hz (singleEntryReader ⟨[], by decide⟩ 0 (by decide)).toLayout).mp
        (h.host _))
    exact ⟨fun i hi => hfield₁ i (by omega), fun i hi => hfield₂ i (by omega)⟩
  · rintro ⟨hclear₁, hclear₂⟩
    have hoff₁ := hbits₁.mpr fun i hi => hclear₁ i (by omega)
    have hoff₂ : entryOffset e₂ = e₂ % 2 ^ 62 := by
      apply hbits₂.mpr
      intro i hi
      by_cases h0 : i = 0
      · rw [h0]
        exact hz
      · exact hclear₂ i (by omega)
    refine ⟨?_, fun L => (refOfEntry_eq_iff hc hz L).mpr hoff₂, ?_, ?_⟩
    · intro c L p v r hr hv he
      rw [clusterRefFor_slot c L hr hv he, land_offsetMask, hoff₁]
    · intro c L refcountTable order horder
      exact scanL1_singleton c L refcountTable horder e₁
    · intro c L refcountTable order horder
      rw [scanL2_singleton c L refcountTable horder e₂, L.refOfEntry_eq,
        hostOf_eq L.guestMap fun _ => hclear₂]

theorem follows_offset_field_iff_sample : FollowsOffsetField 512 1024 ↔
    (∀ i, i ≤ 8 ∨ 56 ≤ i ∧ i ≤ 62 → (512 : Nat).testBit i = false) ∧
      ∀ i, 1 ≤ i ∧ i ≤ 8 ∨ 56 ≤ i ∧ i ≤ 61 → (1024 : Nat).testBit i = false :=
  follows_offset_field_iff (by decide) (by decide) (by decide)

/-- The only data cluster lies at 1024, in an entry with reserved bit 56 set. -/
def reservedBitImage : Content :=
  ⟨headerBytes 2 9 512 1 72 0 0 ++ beBytes 8 512 ++ List.replicate 432 0 ++
    beBytes 8 (2 ^ 56 + 1024) ++ List.replicate 1016 0, by
    simp only [List.length_append, length_headerBytes, length_beBytes, List.length_replicate]
    norm_num⟩

theorem reserved_bit_served_unchecked : ∃ r₀, fromBacking (File.opened reservedBitImage) = .ok r₀ ∧
    outcome ((Qcow2Reader.clusterRefFor 0).run r₀) = .ok (.normal (2 ^ 56 + 1024)) ∧
    (outcome (refcountScan.run (File.opened reservedBitImage))).toOption.map Prod.snd =
      some [1024] ∧
    ¬ FollowsOffsetField 512 (2 ^ 56 + 1024) := by
  obtain ⟨r₀, h, hrun⟩ := exists_ok_map (x := fromBacking (File.opened reservedBitImage))
    (f := fun r => outcome ((Qcow2Reader.clusterRefFor 0).run r))
    (b := .ok (.normal (2 ^ 56 + 1024))) (by decide +kernel)
  refine ⟨r₀, h, hrun, by decide +kernel, ?_⟩
  intro hfollows
  have hlookups := hfollows.walkHost ⟨[], by decide⟩
    (singleEntryReader ⟨[], by decide⟩ 0 (by decide)).toLayout [] 4 (by decide)
  exact absurd (congrArg Except.toOption hlookups) (by decide)

end Qcow2
