import Qcow2.RefcountWidths
import Qcow2.StdIo.Checked

/-! The addresses that the refcount lookup computes: no operation leaves its word, the
bytes read lie in the block, and two clusters never share a field. -/

namespace Qcow2

open StdIo

namespace Checked

variable {β : Type} [ReadSeek β] [Target]

def refcountOf (refcountTable : List Nat) (clusterIdx refcountBits clusterSize : Nat) :
    EStateM (Trap Qcow2Error) β (Option Nat) := do
  let blockBits ← mulIn 64 clusterSize 8
  check (refcountBits ≠ 0) ()
  let refcountsPerBlock := blockBits / refcountBits
  if refcountsPerBlock = 0 then
    return none
  let tableIdx := asUsize (clusterIdx / refcountsPerBlock)
  let blockIdx := clusterIdx % refcountsPerBlock
  match refcountTable[tableIdx]? with
  | none => return none
  | some entry =>
    let low ← subIn clusterSize 1
    let blockOffset := entry &&& (2 ^ 64 - 1 - low)
    if blockOffset = 0 then
      return some 0
    let bitOff ← mulIn 64 blockIdx refcountBits
    let byteOff ← addIn 64 blockOffset (bitOff / 8)
    match refcountBits with
    | 8 => return (← embed (readAt byteOff 1)).map beNat
    | 16 => return (← embed (readAt byteOff 2)).map beNat
    | 32 => return (← embed (readAt byteOff 4)).map beNat
    | 64 => return (← embed (readAt byteOff 8)).map beNat
    | 1 | 2 | 4 =>
      match ← embed (readAt byteOff 1) with
      | none => return none
      | some b =>
        let within := bitOff % 8
        let top ← shlIn 64 1 refcountBits
        let mask ← subIn top 1
        let above ← subIn 8 within
        let shift ← subIn above refcountBits
        let field ← shrIn 64 (beNat b) shift
        return some (field &&& mask)
    | _ => return none

end Checked

theorem blockOf_eq {clusterBits : Nat} (hbits : clusterBits ≤ 64) (entry : Nat) :
    blockOf (2 ^ clusterBits) entry = entry % 2 ^ 64 / 2 ^ clusterBits * 2 ^ clusterBits := by
  have hone := Nat.one_le_two_pow (n := clusterBits)
  have hle : 2 ^ clusterBits ≤ 2 ^ 64 := Nat.pow_le_pow_right (by omega) hbits
  rw [blockOf, show 2 ^ 64 - 1 - (2 ^ clusterBits - 1) = 2 ^ 64 - 2 ^ clusterBits by omega]
  exact land_field entry clusterBits 64 hbits

theorem blockOf_add_le {clusterBits : Nat} (hbits : clusterBits ≤ 64) (entry : Nat) :
    blockOf (2 ^ clusterBits) entry + 2 ^ clusterBits ≤ 2 ^ 64 := by
  have hdvd : 2 ^ clusterBits ∣ 2 ^ 64 := Nat.pow_dvd_pow 2 hbits
  have hlt : entry % 2 ^ 64 / 2 ^ clusterBits < 2 ^ 64 / 2 ^ clusterBits :=
    Nat.div_lt_div_of_lt_of_dvd hdvd (Nat.mod_lt _ (by positivity))
  calc blockOf (2 ^ clusterBits) entry + 2 ^ clusterBits
      = (entry % 2 ^ 64 / 2 ^ clusterBits + 1) * 2 ^ clusterBits := by
        rw [blockOf_eq hbits, Nat.succ_mul]
    _ ≤ 2 ^ 64 / 2 ^ clusterBits * 2 ^ clusterBits := Nat.mul_le_mul_right _ hlt
    _ = 2 ^ 64 := Nat.div_mul_cancel hdvd

section Field

variable {order clusterBits : Nat}

theorem refcountsPerBlock_pos (horder : order ≤ 6) (hbits : 9 ≤ clusterBits) :
    0 < refcountsPerBlock order (2 ^ clusterBits) := by
  have hpow : 2 ^ order ≤ 2 ^ 6 := Nat.pow_le_pow_right (by omega) horder
  have hcs : 2 ^ 9 ≤ 2 ^ clusterBits := Nat.pow_le_pow_right (by omega) hbits
  exact Nat.div_pos (by omega) (by positivity)

theorem fields_disjoint {perBlock bits i j : Nat} (h : i ≠ j) (hslot : i / perBlock = j / perBlock) :
    i % perBlock * bits + bits ≤ j % perBlock * bits ∨
      j % perBlock * bits + bits ≤ i % perBlock * bits := by
  have hne : i % perBlock ≠ j % perBlock := by
    intro hmod
    apply h
    rw [← Nat.div_add_mod i perBlock, ← Nat.div_add_mod j perBlock, hslot, hmod]
  rw [← Nat.succ_mul, ← Nat.succ_mul]
  rcases Nat.lt_or_gt_of_ne hne with hlt | hgt
  · exact .inl (Nat.mul_le_mul_right _ hlt)
  · exact .inr (Nat.mul_le_mul_right _ hgt)

theorem field_bytes (horder : order ≤ 6) {blockIdx clusterSize : Nat}
    (hin : blockIdx * 2 ^ order + 2 ^ order ≤ clusterSize * 8) :
    blockIdx * 2 ^ order / 8 + max 1 (2 ^ order / 8) ≤ clusterSize ∧
      blockIdx * 2 ^ order % 8 + 2 ^ order ≤ max 1 (2 ^ order / 8) * 8 := by
  obtain rfl | rfl | rfl | rfl | rfl | rfl | rfl : order = 0 ∨ order = 1 ∨ order = 2 ∨ order = 3 ∨
    order = 4 ∨ order = 5 ∨ order = 6 := by omega
  all_goals omega

end Field

section Lookup

variable {β : Type} [ReadSeek β] {order clusterBits : Nat}

def fieldValue (order bit : Nat) (bs : List UInt8) : Nat :=
  if 3 ≤ order then beNat bs else beNat bs >>> (8 - bit % 8 - 2 ^ order) &&& (2 ^ 2 ^ order - 1)

theorem refcountOf_eq (horder : order ≤ 6) (hbits : 9 ≤ clusterBits) (refcountTable : List Nat)
    (clusterIdx : Nat) :
    (refcountOf refcountTable clusterIdx (1 <<< order) (1 <<< clusterBits) :
        EStateM Qcow2Error β (Option Nat)) =
      match refcountTable[asUsize (clusterIdx / refcountsPerBlock order (2 ^ clusterBits))]? with
      | none => pure none
      | some entry =>
        if blockOf (2 ^ clusterBits) entry = 0 then pure (some 0)
        else do
          let bs ← readAt (blockOf (2 ^ clusterBits) entry +
            fieldBit order (2 ^ clusterBits) clusterIdx / 8) (max 1 (2 ^ order / 8))
          return bs.map (fieldValue order (fieldBit order (2 ^ clusterBits) clusterIdx)) := by
  have hper := (refcountsPerBlock_pos horder hbits).ne'
  unfold refcountOf
  simp only [refcountsPerBlock, fieldBit, Nat.one_shiftLeft] at hper ⊢
  rw [if_neg hper]
  cases refcountTable[asUsize (clusterIdx / (2 ^ clusterBits * 8 / 2 ^ order))]? with
  | none => rfl
  | some entry =>
    dsimp only
    rw [← blockOf]
    by_cases hblock : blockOf (2 ^ clusterBits) entry = 0
    · rw [if_pos hblock, if_pos hblock]
    · rw [if_neg hblock, if_neg hblock]
      obtain rfl | rfl | rfl | rfl | rfl | rfl | rfl : order = 0 ∨ order = 1 ∨ order = 2 ∨
        order = 3 ∨ order = 4 ∨ order = 5 ∨ order = 6 := by omega
      all_goals rfl

omit [ReadSeek β] in
theorem narrow_agrees {bits within : Nat} (hwithin : within + bits ≤ 8) (o : Option (List UInt8))
    (b : β) :
    Agrees (match o with
      | none => pure none
      | some bs => do
        let top ← shlIn 64 1 bits
        let mask ← subIn top 1
        let above ← subIn 8 within
        let shift ← subIn above bits
        let field ← shrIn 64 (beNat bs) shift
        return some (field &&& mask))
      (pure (o.map fun bs => beNat bs >>> (8 - within - bits) &&& (2 ^ bits - 1)) :
        EStateM Qcow2Error β (Option Nat)) b := by
  cases o with
  | none => exact Agrees.pure _ _
  | some bs =>
    dsimp only
    rw [shlIn_one (by omega), pure_bind, subIn_of_le Nat.one_le_two_pow, pure_bind,
      subIn_of_le (by omega), pure_bind, subIn_of_le (by omega), pure_bind, shrIn_of_lt (by omega),
      pure_bind]
    exact Agrees.pure _ _

theorem refcountOf_agrees (horder : order ≤ 6) (hbits : 9 ≤ clusterBits ∧ clusterBits ≤ 20)
    (refcountTable : List Nat) (clusterIdx : Nat) (b : β) :
    Agrees (Checked.refcountOf refcountTable clusterIdx (1 <<< order) (1 <<< clusterBits))
      (refcountOf refcountTable clusterIdx (1 <<< order) (1 <<< clusterBits)) b := by
  have hper := refcountsPerBlock_pos horder hbits.1
  have hcs : 2 ^ clusterBits ≤ 2 ^ 20 := Nat.pow_le_pow_right (by omega) hbits.2
  have hone := Nat.one_le_two_pow (n := clusterBits)
  have hwidth := Nat.one_le_two_pow (n := order)
  have hfield : fieldBit order (2 ^ clusterBits) clusterIdx + 2 ^ order ≤ 2 ^ clusterBits * 8 :=
    field_in_block hper
  rw [Nat.one_shiftLeft, Nat.one_shiftLeft]
  unfold Checked.refcountOf refcountOf
  simp only [refcountsPerBlock, fieldBit, Nat.one_shiftLeft] at hper hfield ⊢
  rw [mulIn_of_lt (by omega), pure_bind, check_of (show 2 ^ order ≠ 0 by omega), pure_bind,
    if_neg hper.ne', if_neg hper.ne']
  cases refcountTable[asUsize (clusterIdx / (2 ^ clusterBits * 8 / 2 ^ order))]? with
  | none => exact Agrees.pure _ _
  | some entry =>
    have hblock := blockOf_add_le (show clusterBits ≤ 64 by omega) entry
    obtain ⟨hbytes, hnarrow⟩ := field_bytes horder hfield
    rw [blockOf] at hblock
    dsimp only
    rw [subIn_of_le hone, pure_bind]
    refine Agrees.ite (fun _ => Agrees.pure _ _) fun _ => ?_
    rw [mulIn_of_lt (by omega), pure_bind, addIn_of_lt (by omega), pure_bind]
    by_cases hwide : 3 ≤ order
    · obtain rfl | rfl | rfl | rfl : order = 3 ∨ order = 4 ∨ order = 5 ∨ order = 6 := by omega
      all_goals exact Agrees.bind (Agrees.embed _ _) fun o t _ => Agrees.pure _ _
    · have hsmall : 2 ^ order < 2 ^ 3 := Nat.pow_lt_pow_right (by omega) (by omega)
      have hwithin : clusterIdx % (2 ^ clusterBits * 8 / 2 ^ order) * 2 ^ order % 8 + 2 ^ order ≤ 8 := by
        omega
      obtain rfl | rfl | rfl : order = 0 ∨ order = 1 ∨ order = 2 := by omega
      all_goals exact Agrees.bind (Agrees.embed _ _) fun o t _ => narrow_agrees hwithin o t

/-- A lookup reads the bytes of its own field, and these lie in the block that its table
entry names. -/
theorem refcountOf_reads_field (horder : order ≤ 6) (hbits : 9 ≤ clusterBits ∧ clusterBits ≤ 20)
    (refcountTable : List Nat) (clusterIdx : Nat) :
    let slot := asUsize (clusterIdx / refcountsPerBlock order (2 ^ clusterBits))
    let bit := fieldBit order (2 ^ clusterBits) clusterIdx
    let n := max 1 (2 ^ order / 8)
    let lookup : EStateM Qcow2Error β (Option Nat) :=
      refcountOf refcountTable clusterIdx (1 <<< order) (1 <<< clusterBits)
    (refcountTable[slot]? = none ∧ lookup = pure none) ∨
      ∃ entry, refcountTable[slot]? = some entry ∧
        (blockOf (2 ^ clusterBits) entry = 0 ∧ lookup = pure (some 0) ∨
          blockOf (2 ^ clusterBits) entry ≠ 0 ∧
            lookup = (do
              let bs ← readAt (blockOf (2 ^ clusterBits) entry + bit / 8) n
              return bs.map (fieldValue order bit))) ∧
        bit % 8 + 2 ^ order ≤ n * 8 ∧ bit / 8 + n ≤ 2 ^ clusterBits ∧
        blockOf (2 ^ clusterBits) entry + 2 ^ clusterBits ≤ 2 ^ 64 := by
  intro slot bit n lookup
  have heq := @refcountOf_eq β _ _ _ horder hbits.1 refcountTable clusterIdx
  have hfield : bit + 2 ^ order ≤ 2 ^ clusterBits * 8 :=
    field_in_block (refcountsPerBlock_pos horder hbits.1)
  obtain ⟨hbytes, hwithin⟩ : bit / 8 + n ≤ 2 ^ clusterBits ∧ bit % 8 + 2 ^ order ≤ n * 8 :=
    field_bytes horder hfield
  cases hentry : refcountTable[asUsize (clusterIdx / refcountsPerBlock order
      (2 ^ clusterBits))]? with
  | none =>
    rw [hentry] at heq
    exact .inl ⟨rfl, heq⟩
  | some entry =>
    rw [hentry] at heq
    refine .inr ⟨entry, rfl, ?_, hwithin, hbytes, blockOf_add_le (by omega) entry⟩
    by_cases hblock : blockOf (2 ^ clusterBits) entry = 0
    · exact .inl ⟨hblock, heq.trans (if_pos hblock)⟩
    · exact .inr ⟨hblock, heq.trans (if_neg hblock)⟩

omit [ReadSeek β] in
theorem fields_apart {i j : Nat} (hi : i < 2 ^ 56) (hj : j < 2 ^ 56) (hne : i ≠ j) :
    asUsize (i / refcountsPerBlock order (2 ^ clusterBits)) ≠
        asUsize (j / refcountsPerBlock order (2 ^ clusterBits)) ∨
      fieldBit order (2 ^ clusterBits) i + 2 ^ order ≤ fieldBit order (2 ^ clusterBits) j ∨
      fieldBit order (2 ^ clusterBits) j + 2 ^ order ≤ fieldBit order (2 ^ clusterBits) i := by
  rw [asUsize_of_lt ((Nat.div_le_self _ _).trans_lt (by omega)),
    asUsize_of_lt ((Nat.div_le_self _ _).trans_lt (by omega))]
  by_cases hslot : i / refcountsPerBlock order (2 ^ clusterBits) =
      j / refcountsPerBlock order (2 ^ clusterBits)
  · exact .inr (fields_disjoint hne hslot)
  · exact .inl hslot

/-- The lookup never leaves its words, reads nothing but the bytes of its field, in the block
that the table entry names, and takes the fields of two clusters from two slots or apart. -/
theorem refcount_addressing (horder : order ≤ 6) (hbits : 9 ≤ clusterBits ∧ clusterBits ≤ 20)
    (refcountTable : List Nat) :
    (∀ clusterIdx (b : β), clusterIdx < 2 ^ 56 →
        outcome ((Checked.refcountOf refcountTable clusterIdx (1 <<< order)
          (1 <<< clusterBits)).run b) ≠ .error .panic ∧
        Agrees (Checked.refcountOf refcountTable clusterIdx (1 <<< order) (1 <<< clusterBits))
          (refcountOf refcountTable clusterIdx (1 <<< order) (1 <<< clusterBits)) b) ∧
      (∀ clusterIdx, clusterIdx < 2 ^ 56 →
        let slot := asUsize (clusterIdx / refcountsPerBlock order (2 ^ clusterBits))
        let bit := fieldBit order (2 ^ clusterBits) clusterIdx
        let n := max 1 (2 ^ order / 8)
        let lookup : EStateM Qcow2Error β (Option Nat) :=
          refcountOf refcountTable clusterIdx (1 <<< order) (1 <<< clusterBits)
        (refcountTable[slot]? = none ∧ lookup = pure none) ∨
          ∃ entry, refcountTable[slot]? = some entry ∧
            (blockOf (2 ^ clusterBits) entry = 0 ∧ lookup = pure (some 0) ∨
              blockOf (2 ^ clusterBits) entry ≠ 0 ∧
                lookup = (do
                  let bs ← readAt (blockOf (2 ^ clusterBits) entry + bit / 8) n
                  return bs.map (fieldValue order bit))) ∧
            bit % 8 + 2 ^ order ≤ n * 8 ∧ bit / 8 + n ≤ 2 ^ clusterBits ∧
            blockOf (2 ^ clusterBits) entry + 2 ^ clusterBits ≤ 2 ^ 64) ∧
      ∀ i j, i < 2 ^ 56 → j < 2 ^ 56 → i ≠ j →
        asUsize (i / refcountsPerBlock order (2 ^ clusterBits)) ≠
            asUsize (j / refcountsPerBlock order (2 ^ clusterBits)) ∨
          fieldBit order (2 ^ clusterBits) i + 2 ^ order ≤ fieldBit order (2 ^ clusterBits) j ∨
          fieldBit order (2 ^ clusterBits) j + 2 ^ order ≤ fieldBit order (2 ^ clusterBits) i := by
  refine ⟨?_, ?_, ?_⟩
  · intro clusterIdx b _
    have hagrees := refcountOf_agrees horder hbits refcountTable clusterIdx b
    exact ⟨hagrees.ne_panic, hagrees⟩
  · intro clusterIdx _
    exact refcountOf_reads_field horder hbits refcountTable clusterIdx
  · intro i j hi hj hne
    exact fields_apart hi hj hne

end Lookup

theorem refcount_addressing_sample :
    outcome ((Checked.refcountOf [1024] 5 (1 <<< 2) (1 <<< 9)).run (File.opened nibbleImage)) =
        .ok (some 1) ∧
      (refcountOf [1024] 5 (1 <<< 2) (1 <<< 9) : EStateM Qcow2Error File (Option Nat)) = (do
        let bs ← readAt 1026 1
        return bs.map (fieldValue 2 20)) ∧
      (fieldBit 2 (2 ^ 9) 4 + 2 ^ 2 ≤ fieldBit 2 (2 ^ 9) 5 ∨
        fieldBit 2 (2 ^ 9) 5 + 2 ^ 2 ≤ fieldBit 2 (2 ^ 9) 4) := by
  obtain ⟨hchecked, hreads, hfields⟩ := @refcount_addressing File _ 2 9 (by decide)
    (by decide) [1024]
  refine ⟨?_, ?_, (hfields 4 5 (by decide) (by decide) (by decide)).resolve_left (by decide)⟩
  · have hagrees := (hchecked 5 (File.opened nibbleImage) (by decide)).2
    have hplain : outcome ((refcountOf [1024] 5 (1 <<< 2) (1 <<< 9)).run
        (File.opened nibbleImage)) = .ok (some 1) := by decide +kernel
    rw [hagrees.outcome_eq, hplain]
    rfl
  · obtain ⟨hnone, -⟩ | ⟨entry, hentry, hread, -⟩ := hreads 5 (by decide)
    · exact absurd hnone (by decide)
    · obtain rfl : 1024 = entry := Option.some.inj hentry
      obtain ⟨hblock, -⟩ | ⟨-, hread⟩ := hread
      · exact absurd hblock (by decide)
      · exact hread

end Qcow2
