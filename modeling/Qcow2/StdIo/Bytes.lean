import Mathlib

/-! Byte strings read at an offset: windows, big-endian numbers, and tables of
fixed-width words. -/

namespace StdIo

/-- The `n` elements at `off`, fewer at the end of the list. -/
def slice {α : Type*} (bs : List α) (off n : Nat) : List α := (bs.drop off).take n

theorem length_slice {α : Type*} (bs : List α) (off n : Nat) :
    (slice bs off n).length = min n (bs.length - off) := by
  simp [slice]

theorem length_slice_of_le {α : Type*} {bs : List α} {off n : Nat}
    (h : off + n ≤ bs.length) : (slice bs off n).length = n := by
  rw [length_slice]
  omega

theorem length_slice_le {α : Type*} (bs : List α) (off n : Nat) :
    (slice bs off n).length ≤ n := by
  rw [length_slice]
  exact Nat.min_le_left _ _

@[simp] theorem slice_zero_right {α : Type*} (bs : List α) (off : Nat) : slice bs off 0 = [] := by
  simp [slice]

theorem slice_eq_nil_iff {α : Type*} {bs : List α} {off n : Nat} :
    slice bs off n = [] ↔ n = 0 ∨ bs.length ≤ off := by
  rw [← List.length_eq_zero_iff, length_slice]
  omega

theorem getElem?_slice {α : Type*} {bs : List α} {off n k : Nat} (h : k < n) :
    (slice bs off n)[k]? = bs[off + k]? := by
  simp [slice, h, List.getElem?_drop]

theorem slice_add {α : Type*} (bs : List α) (off m n : Nat) :
    slice bs off (m + n) = slice bs off m ++ slice bs (off + m) n := by
  simp only [slice, List.take_add, List.drop_drop]

theorem slice_slice {α : Type*} {bs : List α} {off n a m : Nat} (h : a + m ≤ n) :
    slice (slice bs off n) a m = slice bs (off + a) m := by
  simp only [slice, List.drop_take, List.take_take, List.drop_drop]
  rw [Nat.min_eq_left (by omega)]

theorem slice_append_left {α : Type*} {a : List α} (b : List α) {off n : Nat}
    (h : off + n ≤ a.length) : slice (a ++ b) off n = slice a off n := by
  rw [slice, slice, List.drop_append_of_le_length (by omega),
    List.take_append_of_le_length (by simp only [List.length_drop]; omega)]

theorem slice_append_right {α : Type*} {a : List α} (b : List α) {off : Nat} (n : Nat)
    (h : a.length ≤ off) : slice (a ++ b) off n = slice b (off - a.length) n := by
  rw [slice, slice, List.drop_append, List.drop_eq_nil_of_le h, List.nil_append]

theorem slice_length_append {α : Type*} (a b : List α) : slice (a ++ b) 0 a.length = a := by
  rw [slice, List.drop_zero, List.take_left]

theorem slice_of_isPrefix {α : Type*} {bs image : List α} {off n : Nat} (h : bs <+: image)
    (hlen : off + n ≤ bs.length) : slice bs off n = slice image off n := by
  obtain ⟨rest, rfl⟩ := h
  rw [slice_append_left rest hlen]

theorem slice_congr {α : Type*} {bs cs : List α} {off n : Nat}
    (h : ∀ x, off ≤ x → x < off + n → bs[x]? = cs[x]?) : slice bs off n = slice cs off n := by
  apply List.ext_getElem?
  intro k
  by_cases hk : k < n
  · rw [getElem?_slice hk, getElem?_slice hk, h _ (by omega) (by omega)]
  · rw [List.getElem?_eq_none ((length_slice_le _ _ _).trans (by omega)),
      List.getElem?_eq_none ((length_slice_le _ _ _).trans (by omega))]

theorem drop_append_of_isPrefix {α : Type*} {bs a b : List α} {p : Nat} (h : a ++ b <+: bs.drop p) :
    b <+: bs.drop (p + a.length) := by
  obtain ⟨rest, hrest⟩ := h
  refine ⟨rest, ?_⟩
  rw [← List.drop_drop, ← hrest, List.append_assoc, List.drop_left]

/-- Reading a window in two goes: what a first read of `bs` leaves is the
window that starts behind it. -/
theorem slice_eq_append_of_isPrefix {α : Type*} {image bs : List α} {off n : Nat}
    (h : bs <+: slice image off n) :
    slice image off n = bs ++ slice image (off + bs.length) (n - bs.length) := by
  have hlen : bs.length ≤ n := h.length_le.trans (length_slice_le _ _ _)
  have hbs : bs = slice image off bs.length := by
    have ht := List.prefix_iff_eq_take.mp h
    rw [slice, List.take_take, Nat.min_eq_left hlen] at ht
    exact ht
  conv_lhs => rw [show n = bs.length + (n - bs.length) by omega, slice_add, ← hbs]

def overwrite {α : Type*} (buf : List α) (off : Nat) (bs : List α) : List α :=
  buf.take off ++ bs ++ buf.drop (off + bs.length)

@[simp] theorem overwrite_nil {α : Type*} (buf : List α) (off : Nat) :
    overwrite buf off [] = buf := by
  simp [overwrite]

theorem overwrite_zero {α : Type*} (buf bs : List α) :
    overwrite buf 0 bs = bs ++ buf.drop bs.length := by
  simp [overwrite]

theorem length_overwrite {α : Type*} {buf bs : List α} {off : Nat}
    (h : off + bs.length ≤ buf.length) : (overwrite buf off bs).length = buf.length := by
  simp only [overwrite, List.length_append, List.length_take, List.length_drop]
  omega

theorem getElem?_overwrite {α : Type*} {buf bs : List α} {off : Nat}
    (h : off ≤ buf.length) (k : Nat) : (overwrite buf off bs)[k]? =
      if off ≤ k ∧ k < off + bs.length then bs[k - off]? else buf[k]? := by
  have hlen : (buf.take off).length = off := by simp [h]
  by_cases hk : k < off
  · rw [if_neg (by omega), overwrite, List.append_assoc, List.getElem?_append_left (by omega),
      List.getElem?_take_of_lt hk]
  · by_cases hk' : k < off + bs.length
    · rw [if_pos (by omega), overwrite, List.append_assoc, List.getElem?_append_right (by omega),
        hlen, List.getElem?_append_left (by omega)]
    · rw [if_neg (by omega), overwrite, List.getElem?_append_right (by simp; omega),
        List.getElem?_drop, List.length_append, hlen]
      congr 1
      omega

theorem overwrite_append {α : Type*} {buf bs cs : List α} {off : Nat} (h : off ≤ buf.length) :
    overwrite (overwrite buf off bs) (off + bs.length) cs = overwrite buf off (bs ++ cs) := by
  have hlen : (buf.take off ++ bs).length = off + bs.length := by simp [h]
  have htake : (overwrite buf off bs).take (off + bs.length) = buf.take off ++ bs := by
    rw [overwrite, List.take_append_of_le_length (by omega), ← hlen, List.take_length]
  have hdrop : (overwrite buf off bs).drop (off + bs.length + cs.length) =
      buf.drop (off + bs.length + cs.length) := by
    rw [overwrite, ← hlen, List.drop_append, List.drop_drop,
      List.drop_eq_nil_of_le (by omega), List.nil_append]
    congr 1
    omega
  rw [overwrite, htake, hdrop, overwrite]
  simp [Nat.add_assoc]

theorem overwrite_window {α : Type*} {buf bs : List α} {off stop : Nat}
    (h : off + bs.length ≤ stop) :
    buf.take off ++ overwrite (slice buf off (stop - off)) 0 bs ++ buf.drop stop =
      overwrite buf off bs := by
  have hrest : (slice buf off (stop - off)).drop bs.length ++ buf.drop stop =
      buf.drop (off + bs.length) := by
    rw [slice, List.drop_take, List.drop_drop]
    have hsplit := List.take_append_drop (stop - off - bs.length) (buf.drop (off + bs.length))
    rw [List.drop_drop, show off + bs.length + (stop - off - bs.length) = stop by omega] at hsplit
    exact hsplit
  simp only [overwrite, List.take_zero, List.nil_append, Nat.zero_add, List.append_assoc, hrest]

theorem slice_overwrite {α : Type*} {buf bs : List α} {off : Nat} (h : off ≤ buf.length) :
    slice (overwrite buf off bs) off bs.length = bs := by
  have hlen : (buf.take off).length = off := by simp [h]
  rw [overwrite, List.append_assoc, slice_append_right _ _ hlen.le, hlen, Nat.sub_self,
    slice_length_append]

theorem slice_overwrite_of_apart {α : Type*} {buf bs : List α} {off p n : Nat}
    (h : off ≤ buf.length) (hapart : p + n ≤ off ∨ off + bs.length ≤ p) :
    slice (overwrite buf off bs) p n = slice buf p n := by
  apply slice_congr
  intro x hle hlt
  rw [getElem?_overwrite h, if_neg (by omega)]

def beNat (bs : List UInt8) : Nat := bs.foldl (fun acc b => acc * 256 + b.toNat) 0

theorem beNat_foldl (bs : List UInt8) (acc : Nat) :
    bs.foldl (fun acc b => acc * 256 + b.toNat) acc = acc * 256 ^ bs.length + beNat bs := by
  induction bs generalizing acc with
  | nil => simp [beNat]
  | cons b bs ih =>
    simp only [beNat, List.foldl_cons, List.length_cons]
    rw [ih, ih (0 * 256 + b.toNat)]
    ring

theorem beNat_cons (b : UInt8) (bs : List UInt8) :
    beNat (b :: bs) = b.toNat * 256 ^ bs.length + beNat bs := by
  rw [beNat, List.foldl_cons, beNat_foldl]
  simp

theorem beNat_append (as bs : List UInt8) :
    beNat (as ++ bs) = beNat as * 256 ^ bs.length + beNat bs := by
  rw [beNat, List.foldl_append, beNat_foldl]
  rfl

@[simp] theorem beNat_replicate_zero (n : Nat) : beNat (List.replicate n 0) = 0 := by
  induction n with
  | zero => rfl
  | succ n ih => rw [List.replicate_succ, beNat_cons, ih, UInt8.toNat_zero, Nat.zero_mul]

theorem beNat_lt (bs : List UInt8) : beNat bs < 256 ^ bs.length := by
  induction bs with
  | nil => simp [beNat]
  | cons b bs ih =>
    have hb : b.toNat < 256 := b.toNat_lt
    rw [beNat_cons, List.length_cons, Nat.pow_succ]
    have hm : b.toNat * 256 ^ bs.length ≤ 255 * 256 ^ bs.length := Nat.mul_le_mul_right _ (by omega)
    omega

def beAt (bs : List UInt8) (off n : Nat) : Nat := beNat (slice bs off n)

theorem beAt_lt (bs : List UInt8) (off n : Nat) : beAt bs off n < 256 ^ n :=
  (beNat_lt _).trans_le (Nat.pow_le_pow_right (by omega) (length_slice_le _ _ _))

theorem beAt_of_isPrefix {bs image : List UInt8} {off n : Nat} (h : bs <+: image)
    (hlen : off + n ≤ bs.length) : beAt bs off n = beAt image off n := by
  rw [beAt, slice_of_isPrefix h hlen, beAt]

theorem beAt_drop (bs : List UInt8) (p off n : Nat) : beAt (bs.drop p) off n = beAt bs (p + off) n := by
  rw [beAt, beAt, slice, slice, List.drop_drop]

theorem beAt_slice {bs : List UInt8} {off n a m : Nat} (h : a + m ≤ n) :
    beAt (slice bs off n) a m = beAt bs (off + a) m := by
  rw [beAt, slice_slice h, beAt]

theorem beAt_window (bs : List UInt8) {off n w : Nat} (h : off + n ≤ w) :
    beAt (slice bs 0 w) off n = beAt bs off n := by
  rw [beAt_slice h, Nat.zero_add]

theorem beAt_add {bs : List UInt8} {off m n : Nat} (h : off + m + n ≤ bs.length) :
    beAt bs off (m + n) = beAt bs off m * 256 ^ n + beAt bs (off + m) n := by
  rw [beAt, slice_add, beNat_append, length_slice_of_le h, beAt, beAt]

theorem beAt_eq_zero {bs : List UInt8} {off n : Nat}
    (h : ∀ x, off ≤ x → x < off + n → bs[x]? = some 0) : beAt bs off n = 0 := by
  have hzeros : slice bs off n = slice (List.replicate (off + n) 0) off n := by
    apply slice_congr
    intro x hle hlt
    rw [h x hle hlt, List.getElem?_replicate, if_pos hlt]
  rw [beAt, hzeros, slice, List.drop_replicate, List.take_replicate, beNat_replicate_zero]

def beBytes (n x : Nat) : List UInt8 := (List.range n).map fun i => .ofNat (x / 256 ^ (n - 1 - i))

@[simp] theorem length_beBytes (n x : Nat) : (beBytes n x).length = n := by
  simp [beBytes]

theorem beBytes_succ (n x : Nat) : beBytes (n + 1) x = .ofNat (x / 256 ^ n) :: beBytes n x := by
  simp only [beBytes, List.range_succ_eq_map, List.map_cons, List.map_map]
  congr 1
  apply List.map_congr_left
  intro i _
  simp only [Function.comp]
  congr 3
  omega

theorem beNat_beBytes (n x : Nat) : beNat (beBytes n x) = x % 256 ^ n := by
  induction n with
  | zero => simp [beBytes, beNat, Nat.mod_one]
  | succ n ih =>
    have hb : (UInt8.ofNat (x / 256 ^ n)).toNat = x / 256 ^ n % 256 := UInt8.toNat_ofNat'
    rw [beBytes_succ, beNat_cons, length_beBytes, ih, hb, Nat.pow_succ, Nat.mod_mul]
    ring

theorem beNat_beBytes_of_lt {n x : Nat} (h : x < 256 ^ n) : beNat (beBytes n x) = x := by
  rw [beNat_beBytes, Nat.mod_eq_of_lt h]

theorem beAt_overwrite {buf : List UInt8} {off n x : Nat} (h : off ≤ buf.length) (hx : x < 256 ^ n) :
    beAt (overwrite buf off (beBytes n x)) off n = x := by
  have hslice := @slice_overwrite _ buf (beBytes n x) off h
  rw [length_beBytes] at hslice
  rw [beAt, hslice, beNat_beBytes_of_lt hx]

/-- Fields written one after the other, each as its width and its value. -/
def beFields (fs : List (Nat × Nat)) : List UInt8 := fs.flatMap fun f => beBytes f.1 f.2

theorem length_beFields (fs : List (Nat × Nat)) :
    (beFields fs).length = (fs.map Prod.fst).sum := by
  simp [beFields, List.length_flatMap]

theorem beAt_beFields {pre post : List (Nat × Nat)} {n x : Nat} (hx : x < 256 ^ n) :
    beAt (beFields (pre ++ (n, x) :: post)) (pre.map Prod.fst).sum n = x := by
  have hsplit : beFields (pre ++ (n, x) :: post) = beFields pre ++ (beBytes n x ++ beFields post) := by
    simp [beFields]
  have hvalue : slice (beBytes n x ++ beFields post) 0 n = beBytes n x := by
    have hslice := slice_length_append (beBytes n x) (beFields post)
    rwa [length_beBytes] at hslice
  rw [beAt, hsplit, slice_append_right _ _ (length_beFields pre).le, length_beFields, Nat.sub_self,
    hvalue, beNat_beBytes_of_lt hx]

theorem beAt_part (pre part post : List UInt8) {off n : Nat} (h : off + n ≤ part.length) :
    beAt (pre ++ (part ++ post)) (pre.length + off) n = beAt part off n := by
  rw [beAt, slice_append_right _ _ (Nat.le_add_right _ _), Nat.add_sub_cancel_left,
    slice_append_left _ h, beAt]

/-- The words `f 0`, `f 1` and so on, each of `n` bytes. -/
def beArray (n count : Nat) (f : Nat → Nat) : List UInt8 :=
  (List.range count).flatMap fun k => beBytes n (f k)

theorem beArray_succ (n count : Nat) (f : Nat → Nat) :
    beArray n (count + 1) f = beArray n count f ++ beBytes n (f count) := by
  simp [beArray, List.range_succ]

@[simp] theorem length_beArray (n count : Nat) (f : Nat → Nat) :
    (beArray n count f).length = count * n := by
  simp [beArray, List.length_flatMap]

theorem beAt_beArray {n count k : Nat} {f : Nat → Nat} (hk : k < count) (hf : f k < 256 ^ n) :
    beAt (beArray n count f) (k * n) n = f k := by
  induction count with
  | zero => omega
  | succ count ih =>
    rw [beArray_succ]
    by_cases hlast : k = count
    · subst hlast
      have hlen : 0 + n ≤ (beBytes n (f k)).length := by simp
      have hpart := beAt_part (beArray n k f) (beBytes n (f k)) [] hlen
      rw [List.append_nil, length_beArray, Nat.add_zero] at hpart
      have hall : slice (beBytes n (f k)) 0 n = beBytes n (f k) :=
        List.take_of_length_le (by simp)
      rw [hpart, beAt, hall, beNat_beBytes_of_lt hf]
    · have hle : (k + 1) * n ≤ count * n := Nat.mul_le_mul_right n (by omega)
      rw [Nat.succ_mul] at hle
      rw [← beAt_of_isPrefix (List.prefix_append _ _) (by rw [length_beArray]; omega)]
      exact ih (by omega)

/-- `chunks_exact(k)`: the complete groups of `k` bytes, a shorter rest dropped. -/
def chunksExact (k : Nat) (bs : List UInt8) : List (List UInt8) :=
  (List.range (bs.length / k)).map fun i => slice bs (i * k) k

def beWords (bs : List UInt8) : List Nat := (chunksExact 8 bs).map beNat

theorem length_beWords (bs : List UInt8) : (beWords bs).length = bs.length / 8 := by
  simp [beWords, chunksExact]

theorem lt_of_mem_beWords {bs : List UInt8} {w : Nat} (h : w ∈ beWords bs) : w < 2 ^ 64 := by
  simp only [beWords, chunksExact, List.map_map, List.mem_map] at h
  obtain ⟨i, -, rfl⟩ := h
  exact beAt_lt bs (i * 8) 8

theorem beWords_slice {bs : List UInt8} {off n : Nat} (h : off + n * 8 ≤ bs.length) :
    beWords (slice bs off (n * 8)) = (List.range n).map fun i => beAt bs (off + i * 8) 8 := by
  have hlen : (slice bs off (n * 8)).length / 8 = n := by
    rw [length_slice_of_le h]
    omega
  simp only [beWords, chunksExact, hlen, List.map_map]
  apply List.map_congr_left
  intro i hi
  have hi' := List.mem_range.mp hi
  exact beAt_slice (show i * 8 + 8 ≤ n * 8 by omega)

end StdIo
