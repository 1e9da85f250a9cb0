import Qcow2.StdIo.Bytes

/-! Machine integers: the width of `usize`, the casts between `u64`, `usize` and
`i64`, and masks and shifts as division. -/

namespace StdIo

class Target where
  usizeBits : Nat

/-- Targets are 64-bit unless said otherwise. -/
instance target64 : Target := ⟨64⟩

/-- `x as usize`. -/
def asUsize [t : Target] (x : Nat) : Nat := x % 2 ^ t.usizeBits

def usizeTryFrom [t : Target] (x : Nat) : Option Nat :=
  if x < 2 ^ t.usizeBits then some x else none

def checkedAdd [t : Target] (x y : Nat) : Option Nat :=
  if x + y < 2 ^ t.usizeBits then some (x + y) else none

theorem checkedAdd_eq_some [Target] {x y z : Nat} (h : checkedAdd x y = some z) : z = x + y := by
  unfold checkedAdd at h
  split_ifs at h
  exact (Option.some.inj h).symm

@[simp] theorem asUsize_of_lt {x : Nat} (h : x < 2 ^ 64) : asUsize x = x := Nat.mod_eq_of_lt h

theorem two_pow_le_usize [t : Target] (ht : 32 ≤ t.usizeBits) : 2 ^ 32 ≤ 2 ^ t.usizeBits :=
  Nat.pow_le_pow_right (by omega) ht

theorem asUsize_of_width [t : Target] (ht : 32 ≤ t.usizeBits) {x : Nat} (h : x < 2 ^ 32) :
    asUsize x = x :=
  Nat.mod_eq_of_lt (h.trans_le (two_pow_le_usize ht))

/-- `x as i64` of a `u64`. -/
def asI64 (x : Nat) : Int := if x < 2 ^ 63 then x else -((2 ^ 64 - x : Nat) : Int)

def InI64 (x : Int) : Prop := -2 ^ 63 ≤ x ∧ x < 2 ^ 63

instance (x : Int) : Decidable (InI64 x) := inferInstanceAs (Decidable (_ ∧ _))

/-- `i64` addition as release builds do it: the low 64 bits, read as signed. -/
def i64Add (x y : Int) : Int := asI64 ((x + y) % 2 ^ 64).toNat

theorem i64Add_of_in {x y : Int} (h : InI64 (x + y)) : i64Add x y = x + y := by
  obtain ⟨hl, hu⟩ := h
  unfold i64Add asI64
  by_cases hneg : x + y < 0
  · have hmod : (x + y) % 2 ^ 64 = x + y + 2 ^ 64 := by
      rw [← Int.add_emod_right, Int.emod_eq_of_lt (by omega) (by omega)]
    rw [hmod, if_neg (by omega)]
    omega
  · have hmod : (x + y) % 2 ^ 64 = x + y := Int.emod_eq_of_lt (by omega) (by omega)
    rw [hmod, if_pos (by omega)]
    omega

theorem asI64_of_lt {x : Nat} (h : x < 2 ^ 63) : asI64 x = x := by
  rw [asI64, if_pos h]

theorem asI64_neg {x : Nat} (h : 2 ^ 63 ≤ x) (h' : x < 2 ^ 64) : asI64 x < 0 := by
  rw [asI64, if_neg (by omega)]
  omega

theorem asI64_in {x : Nat} (h : x < 2 ^ 64) : InI64 (asI64 x) := by
  unfold asI64 InI64
  split <;> omega

def trailingZeros (x : Nat) : Nat := ((List.range 64).find? x.testBit).getD 64

theorem trailingZeros_two_pow {n : Nat} (h : n < 64) : trailingZeros (2 ^ n) = n := by
  have hfind : (List.range 64).find? (2 ^ n).testBit = some n := by
    rw [List.find?_range_eq_some]
    refine ⟨by simp, by simpa using h, ?_⟩
    intro j hj
    simp [Nat.testBit_two_pow_of_ne (show n ≠ j by omega)]
  rw [trailingZeros, hfind]
  rfl

theorem two_pow_eq_mul {a b c : Nat} (h : c = a + b) : 2 ^ c = 2 ^ a * 2 ^ b := by
  rw [h, Nat.pow_add]

theorem shiftRight_two_pow (x n : Nat) : x >>> n = x / 2 ^ n := Nat.shiftRight_eq_div_pow x n

theorem land_low (x n : Nat) : x &&& (2 ^ n - 1) = x % 2 ^ n := Nat.and_two_pow_sub_one_eq_mod x n

theorem land_bit_ne_zero (x n : Nat) : x &&& (1 <<< n) ≠ 0 ↔ x.testBit n = true := by
  rw [Nat.one_shiftLeft, Nat.and_two_pow]
  cases x.testBit n <;> simp

theorem land_one_ne_zero (x : Nat) : x &&& 1 ≠ 0 ↔ x % 2 = 1 := by
  rw [Nat.and_one_is_mod]
  omega

theorem land_field (x lo hi : Nat) (h : lo ≤ hi) :
    x &&& (2 ^ hi - 2 ^ lo) = x % 2 ^ hi / 2 ^ lo * 2 ^ lo := by
  apply Nat.eq_of_testBit_eq
  intro i
  have hsub : 2 ^ hi - 2 ^ lo = (2 ^ (hi - lo) - 1) * 2 ^ lo := by
    rw [Nat.sub_mul, ← Nat.pow_add, Nat.sub_add_cancel h, Nat.one_mul]
  rw [hsub, Nat.testBit_and, Nat.testBit_mul_two_pow, Nat.testBit_mul_two_pow,
    Nat.testBit_two_pow_sub_one, Nat.testBit_div_two_pow, Nat.testBit_mod_two_pow]
  by_cases hi' : lo ≤ i
  · have hlt : i - lo < hi - lo ↔ i < hi := by omega
    simp [hi', hlt, Bool.and_comm]
  · simp [hi']

end StdIo
