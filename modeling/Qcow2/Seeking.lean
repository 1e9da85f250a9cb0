import Qcow2.Checked
import Qcow2.FlatRuns

/-! Seeking against exact integer arithmetic, from every state a reader comes to. -/

namespace Qcow2

open StdIo

/-- The operands the source's types admit: `u64` for a start, `i64` for an offset. -/
def SeekOperand : SeekFrom → Prop
  | .start n => n < 2 ^ 64
  | .current n => InI64 n
  | .fromEnd n => InI64 n

def integerTarget (size pos : Nat) : SeekFrom → Int
  | .start n => n
  | .current n => pos + n
  | .fromEnd n => size + n

def SeekSafe (size pos : Nat) : SeekFrom → Prop
  | .start n => n < 2 ^ 63
  | .current n => pos < 2 ^ 63 ∧ pos + n < 2 ^ 63
  | .fromEnd n => size < 2 ^ 63 ∧ size + n < 2 ^ 63

namespace Checked

variable {β : Type}

def seek (s : SeekFrom) : EStateM (Trap IoError) (Qcow2Reader β) Nat := do
  let r ← get
  let newPos ← match s with
    | .start n => pure (asI64 n)
    | .current n => addI64 (asI64 r.pos) n
    | .fromEnd n => addI64 (asI64 r.virtualDiskSize) n
  if newPos < 0 then
    throw (.error Qcow2Reader.seekBeforeStart)
  set { r with pos := newPos.toNat }
  return newPos.toNat

end Checked

/-- No operation overflows, every target that fits in a `u64` is reached, and every
other is refused with the position kept. -/
structure SeekExact {β : Type} (s : SeekFrom) (r : Qcow2Reader β) : Prop where
  no_overflow : outcome ((Checked.seek s).run r) ≠ .error .panic
  reaches : ∀ q : Nat, integerTarget r.virtualDiskSize r.pos s = q ∧ q < 2 ^ 64 ↔
    ∃ r', (Qcow2Reader.seek s).run r = .ok q r' ∧ r'.pos = q
  keeps : ∀ e r', (Qcow2Reader.seek s).run r = .error e r' → r'.pos = r.pos

theorem asI64_lt (x : Nat) : asI64 x < 2 ^ 63 := by
  unfold asI64
  split <;> omega

theorem exactTarget_cases {size pos : Nat} {s : SeekFrom} (hs : SeekOperand s)
    (hsize : size < 2 ^ 64) (hpos : pos < 2 ^ 64) :
    exactTarget size pos s = integerTarget size pos s ∨
      exactTarget size pos s = integerTarget size pos s - 2 ^ 64 := by
  cases s with
  | start n =>
    have hn : n < 2 ^ 64 := hs
    simp only [exactTarget, integerTarget, asI64]
    split <;> omega
  | current n =>
    simp only [exactTarget, integerTarget, asI64]
    split <;> omega
  | fromEnd n =>
    simp only [exactTarget, integerTarget, asI64]
    split <;> omega

theorem seekSafe_iff {size pos : Nat} {s : SeekFrom} (hs : SeekOperand s) (hsize : size < 2 ^ 64)
    (hpos : pos < 2 ^ 64) : SeekSafe size pos s ↔
      InI64 (exactTarget size pos s) ∧ exactTarget size pos s = integerTarget size pos s := by
  cases s with
  | start n =>
    have hn : n < 2 ^ 64 := hs
    simp only [SeekSafe, exactTarget, integerTarget, asI64, InI64]
    split <;> omega
  | current n =>
    have hn : -2 ^ 63 ≤ n ∧ n < 2 ^ 63 := hs
    simp only [SeekSafe, exactTarget, integerTarget, asI64, InI64]
    split <;> omega
  | fromEnd n =>
    have hn : -2 ^ 63 ≤ n ∧ n < 2 ^ 63 := hs
    simp only [SeekSafe, exactTarget, integerTarget, asI64, InI64]
    split <;> omega

namespace Qcow2Reader

variable {β : Type}

theorem seek_reaches_iff {s : SeekFrom} {r : Qcow2Reader β} {q : Nat} :
    (∃ r', (seek s).run r = .ok q r' ∧ r'.pos = q) ↔
      seekTarget r.virtualDiskSize r.pos s = q := by
  by_cases hneg : seekTarget r.virtualDiskSize r.pos s < 0
  · rw [seek_run_neg hneg]
    constructor
    · rintro ⟨r', hrun, -⟩
      cases hrun
    · intro hq
      omega
  · rw [seek_run_nonneg (by omega)]
    constructor
    · rintro ⟨r', hrun, -⟩
      cases hrun
      omega
    · intro hq
      rw [hq, Int.toNat_natCast]
      exact ⟨{ r with pos := q }, rfl, rfl⟩

theorem seek_keeps {s : SeekFrom} {r r' : Qcow2Reader β} {e : IoError}
    (hrun : (seek s).run r = .error e r') : r'.pos = r.pos := by
  by_cases hneg : seekTarget r.virtualDiskSize r.pos s < 0
  · rw [seek_run_neg hneg] at hrun
    cases hrun
    rfl
  · rw [seek_run_nonneg (by omega)] at hrun
    cases hrun

theorem checked_seek_ne_panic_iff {s : SeekFrom} (hs : SeekOperand s) {r : Qcow2Reader β} :
    outcome ((Checked.seek s).run r) ≠ .error .panic ↔
      InI64 (exactTarget r.virtualDiskSize r.pos s) := by
  cases s with
  | start n =>
    have hn : InI64 (asI64 n) := asI64_in hs
    by_cases hneg : asI64 n < 0 <;> simp [Checked.seek, exactTarget, hn, hneg, outcome]
  | current n =>
    by_cases hin : InI64 (asI64 r.pos + n)
    · by_cases hneg : asI64 r.pos + n < 0 <;>
        simp [Checked.seek, addI64, check_of hin, exactTarget, hin, hneg, outcome]
    · simp [Checked.seek, addI64, run_check_of_not hin, exactTarget, hin, outcome]
  | fromEnd n =>
    by_cases hin : InI64 (asI64 r.virtualDiskSize + n)
    · by_cases hneg : asI64 r.virtualDiskSize + n < 0 <;>
        simp [Checked.seek, addI64, check_of hin, exactTarget, hin, hneg, outcome]
    · simp [Checked.seek, addI64, run_check_of_not hin, exactTarget, hin, outcome]

theorem seekExact_iff {s : SeekFrom} (hs : SeekOperand s) {r : Qcow2Reader β}
    (hpos : r.pos < 2 ^ 64) : SeekExact s r ↔ SeekSafe r.virtualDiskSize r.pos s := by
  rw [seekSafe_iff hs r.virtualDiskSize_lt hpos]
  constructor
  · intro h
    have hin := (checked_seek_ne_panic_iff hs).mp h.no_overflow
    have htarget := seekTarget_eq hin
    refine ⟨hin, (exactTarget_cases hs r.virtualDiskSize_lt hpos).resolve_right ?_⟩
    -- a wrapped operand either turns a reachable target down or reaches one out of range
    intro hwrap
    obtain ⟨hl, hu⟩ := hin
    by_cases hneg : seekTarget r.virtualDiskSize r.pos s < 0
    · have hq : integerTarget r.virtualDiskSize r.pos s =
          ((integerTarget r.virtualDiskSize r.pos s).toNat : Int) := by omega
      have hreached := seek_reaches_iff.mp ((h.reaches _).mp ⟨hq, by omega⟩)
      omega
    · have hq : seekTarget r.virtualDiskSize r.pos s =
          ((seekTarget r.virtualDiskSize r.pos s).toNat : Int) := by omega
      have hwanted := ((h.reaches _).mpr (seek_reaches_iff.mpr hq)).1
      omega
  · rintro ⟨hin, hexact⟩
    have htarget := seekTarget_eq hin
    refine ⟨(checked_seek_ne_panic_iff hs).mpr hin, ?_, fun _ _ => seek_keeps⟩
    obtain ⟨hl, hu⟩ := hin
    intro q
    rw [seek_reaches_iff]
    omega

variable [ReadSeek β] {M : Medium} {cursor : β → Nat → Prop} {L : Layout} (inflate : Inflate)

theorem seekTarget_lt (size p : Nat) (s : SeekFrom) : seekTarget size p s < 2 ^ 63 := by
  cases s with
  | start n => exact asI64_lt n
  | current n => exact asI64_lt _
  | fromEnd n => exact asI64_lt _

theorem seekPos_lt (size : Nat) {p : Nat} (hp : p < 2 ^ 64) (s : SeekFrom) :
    seekPos p (seekOutcome size p s) < 2 ^ 64 := by
  have hlt := seekTarget_lt size p s
  unfold seekOutcome
  split
  · exact hp
  · rw [seekPos]
    omega

theorem call_run_at_lt (S : Serves M cursor) {p : Nat} {r : Qcow2Reader β} (hr : At cursor L p r)
    (hp : p < 2 ^ 64) (cs : List Call) :
    ∃ q, q < 2 ^ 64 ∧ At cursor L q ((call inflate).run cs r).2 := by
  apply Machine.run_invariant (I := fun r => ∃ q, q < 2 ^ 64 ∧ At cursor L q r) _ ⟨p, hp, hr⟩
  intro r c hr
  obtain ⟨q, hq, hat⟩ := hr
  cases c with
  | seek s =>
    obtain ⟨r', hrun, hr'⟩ := seek_run hat s
    rw [call, answer_eq hrun]
    exact ⟨_, seekPos_lt _ hq s, hr'⟩
  | read buf =>
    obtain ⟨o, r', hrun, hreads, hr'⟩ := read_run inflate S hat buf
    rw [call, answer_eq hrun]
    exact ⟨_, (FlatDisk.Reads.after_le hreads).trans_lt (max_lt hq L.virtualDiskSize_lt), hr'⟩

end Qcow2Reader

section

variable {β : Type} [ReadSeek β] {M : Medium} {cursor : β → Nat → Prop}

theorem fromBacking_stands (S : Serves M cursor) {b : β} {p : Nat} (hb : cursor b p)
    {r : Qcow2Reader β} (h : fromBacking b = .ok r) : Qcow2Reader.At cursor r.toLayout 0 r := by
  obtain ⟨b', hb', heq⟩ := fromBacking_from S hb
  rw [heq] at h
  cases hl : openedAt M p with
  | error e =>
    rw [hl] at h
    cases h
  | ok L =>
    rw [hl] at h
    cases h
    exact ⟨rfl, rfl, hb'⟩

/-- In whatever state a history of calls leaves the reader, seeking is exact just where
neither the operands nor the target reach `2 ^ 63`. -/
theorem seek_exact_iff (S : Serves M cursor) (inflate : Inflate) {b : β} {p : Nat} (hb : cursor b p)
    {r₀ : Qcow2Reader β} (h : fromBacking b = .ok r₀) (cs : List Call) {s : SeekFrom}
    (hs : SeekOperand s) :
    SeekExact s ((Qcow2Reader.call inflate).run cs r₀).2 ↔
      SeekSafe r₀.virtualDiskSize ((Qcow2Reader.call inflate).run cs r₀).2.pos s := by
  have hat := fromBacking_stands S hb h
  obtain ⟨q, hq, hat'⟩ := Qcow2Reader.call_run_at_lt inflate S hat (by omega) cs
  have hpos := hat'.2.1
  rw [Qcow2Reader.seekExact_iff hs (by omega), hat'.1]

end

/-- A position below `2 ^ 64` that `Seek` refuses as lying before the start. -/
theorem seek_to_two_pow_63_refused : ∃ r₀, fromBacking (Cursor.mk sampleImage 0) = .ok r₀ ∧
    integerTarget r₀.virtualDiskSize r₀.pos (.start (2 ^ 63)) = 2 ^ 63 ∧
    (Qcow2Reader.seek (.start (2 ^ 63))).run r₀ = .error Qcow2Reader.seekBeforeStart r₀ ∧
    ¬ SeekExact (.start (2 ^ 63)) r₀ := by
  obtain ⟨r₀, h⟩ := exists_ok (x := fromBacking (Cursor.mk sampleImage 0)) (by decide)
  have hrun : (Qcow2Reader.seek (.start (2 ^ 63))).run r₀ =
      .error Qcow2Reader.seekBeforeStart r₀ := Qcow2Reader.seek_run_neg (show asI64 _ < 0 by decide)
  refine ⟨r₀, h, rfl, hrun, ?_⟩
  intro hexact
  obtain ⟨r', hok, -⟩ := (hexact.reaches (2 ^ 63)).mp ⟨rfl, by decide⟩
  rw [hrun] at hok
  cases hok

theorem seek_exact_iff_sample : ∃ r₀, fromBacking (Cursor.mk sampleImage 0) = .ok r₀ ∧
    (SeekExact (.current (-1)) ((Qcow2Reader.call .ok).run [.read [0, 0]] r₀).2 ↔
      SeekSafe r₀.virtualDiskSize ((Qcow2Reader.call .ok).run [.read [0, 0]] r₀).2.pos
        (.current (-1))) := by
  obtain ⟨r₀, h⟩ := exists_ok (x := fromBacking (Cursor.mk sampleImage 0)) (by decide)
  exact ⟨r₀, h, seek_exact_iff (serves_cursor sampleImage) .ok (Cursor.on_start sampleImage) h
    [.read [0, 0]] (show InI64 (-1) by decide)⟩

end Qcow2
