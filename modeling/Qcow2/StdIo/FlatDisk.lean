import Qcow2.StdIo.Bytes

/-! A flat disk with faults and holes, what one read of it may return, and the
content that any sequence of such reads adds up to. -/

namespace StdIo

/-- `fetch i` is the element at `i`, `ok none` where the store ends before it,
or the fault met on the way to it. -/
structure FlatDisk (ε α : Type) where
  size : Nat
  fetch : Nat → Except ε (Option α)

namespace FlatDisk

variable {ε α : Type} (d : FlatDisk ε α)

/-- What a read of at most `len` elements at `p` may return: a fault or nothing
exactly when `p` is faulty or missing, else some of the elements from `p` on. -/
def Reads (p len : Nat) (o : Except ε (List α)) : Prop :=
  if len = 0 ∨ d.size ≤ p then o = .ok []
  else match d.fetch p with
    | .error e => o = .error e
    | .ok none => o = .ok []
    | .ok (some _) => ∃ bs, o = .ok bs ∧ bs ≠ [] ∧ bs.length ≤ len ∧ p + bs.length ≤ d.size ∧
        ∀ k b, bs[k]? = some b → d.fetch (p + k) = .ok (some b)

def get? (i : Nat) : Option α := (d.fetch i).toOption.join

def after (p : Nat) : Except ε (List α) → Nat
  | .ok bs => p + bs.length
  | .error _ => p

/-- Up to `n` elements from `p` on, with the fault that ended them, if any. -/
def stream : Nat → Nat → List α × Option ε
  | 0, _ => ([], none)
  | n + 1, p =>
    if d.size ≤ p then ([], none)
    else match d.fetch p with
      | .error e => ([], some e)
      | .ok none => ([], none)
      | .ok (some b) => (b :: (stream n (p + 1)).1, (stream n (p + 1)).2)

variable {d}

theorem get?_eq_some_iff {i : Nat} {b : α} : d.get? i = some b ↔ d.fetch i = .ok (some b) := by
  cases h : d.fetch i with
  | error e => simp [get?, h, Except.toOption]
  | ok o => cases o <;> simp [get?, h, Except.toOption]

namespace Reads

theorem at_end {p len : Nat} {o : Except ε (List α)} (h : d.Reads p len o)
    (hp : len = 0 ∨ d.size ≤ p) : o = .ok [] := by
  rwa [Reads, if_pos hp] at h

theorem error_iff {p len : Nat} {o : Except ε (List α)} (h : d.Reads p len o) (hlen : len ≠ 0)
    (hp : p < d.size) (e : ε) : o = .error e ↔ d.fetch p = .error e := by
  rw [Reads, if_neg (by omega)] at h
  split at h
  · rename_i he
    simp [h, he]
  · rename_i he
    simp [h, he]
  · rename_i he
    obtain ⟨bs, rfl, -⟩ := h
    simp [he]

theorem nil_iff {p len : Nat} {o : Except ε (List α)} (h : d.Reads p len o) (hlen : len ≠ 0)
    (hp : p < d.size) : o = .ok [] ↔ d.fetch p = .ok none := by
  rw [Reads, if_neg (by omega)] at h
  split at h
  · rename_i he
    simp [h, he]
  · rename_i he
    simp [h, he]
  · rename_i he
    obtain ⟨bs, rfl, hbs, -⟩ := h
    simp [he, hbs]

theorem ok_bounds {p len : Nat} {bs : List α} (h : d.Reads p len (.ok bs)) :
    bs.length ≤ len ∧ (bs ≠ [] → p + bs.length ≤ d.size) ∧
      ∀ k b, bs[k]? = some b → d.fetch (p + k) = .ok (some b) := by
  have hnil : (.ok bs : Except ε (List α)) = .ok [] → bs.length ≤ len ∧
      (bs ≠ [] → p + bs.length ≤ d.size) ∧
      ∀ k b, bs[k]? = some b → d.fetch (p + k) = .ok (some b) := by
    intro he
    cases he
    simp
  rw [Reads] at h
  split at h
  · exact hnil h
  · split at h
    · cases h
    · exact hnil h
    · obtain ⟨bs', he, -, hle, hsize, hfetch⟩ := h
      cases he
      exact ⟨hle, fun _ => hsize, hfetch⟩

theorem after_le {p len : Nat} {o : Except ε (List α)} (h : d.Reads p len o) :
    after p o ≤ max p d.size := by
  cases o with
  | error e => exact Nat.le_max_left _ _
  | ok bs =>
    rw [after]
    by_cases hbs : bs = []
    · simp [hbs]
    · have hsize := h.ok_bounds.2.1 hbs
      omega

theorem of_bytes {p len : Nat} {bs : List α} (hbs : bs ≠ []) (hlen : bs.length ≤ len)
    (hp : p + bs.length ≤ d.size)
    (hget : ∀ k b, bs[k]? = some b → d.fetch (p + k) = .ok (some b)) :
    d.Reads p len (.ok bs) := by
  have hpos : 0 < bs.length := List.length_pos_iff.mpr hbs
  have h0 : d.fetch p = .ok (some bs[0]) := hget 0 bs[0] (List.getElem?_eq_getElem hpos)
  rw [Reads, if_neg (by omega), h0]
  exact ⟨bs, rfl, hbs, hlen, hp, hget⟩

theorem of_error {p len : Nat} {e : ε} (hlen : len ≠ 0) (hp : p < d.size)
    (he : d.fetch p = .error e) : d.Reads p len (.error e) := by
  rw [Reads, if_neg (by omega), he]

theorem of_missing {p len : Nat} (he : d.fetch p = .ok none) : d.Reads p len (.ok []) := by
  rw [Reads]
  split
  · rfl
  · rw [he]

theorem eq_singleton {p : Nat} {o : Except ε (List α)} {b : α} (h : d.Reads p 1 o)
    (hp : p < d.size) (hb : d.fetch p = .ok (some b)) : o = .ok [b] := by
  rw [Reads, if_neg (by omega), hb] at h
  obtain ⟨bs, rfl, hbs, hlen, -, hget⟩ := h
  obtain ⟨c, rfl⟩ := List.length_eq_one_iff.mp
    (Nat.le_antisymm hlen (List.length_pos_iff.mpr hbs))
  have hc := hget 0 c rfl
  rw [Nat.add_zero, hb] at hc
  cases hc
  rfl

theorem of_window {d' : FlatDisk ε α} {p j m len : Nat} {o : Except ε (List α)}
    (h : d'.Reads j m o) (hm : 0 < m) (hle : m ≤ len) (hp : p + m ≤ d.size) (hj : j + m ≤ d'.size)
    (hfetch : ∀ k, k < m → d.fetch (p + k) = d'.fetch (j + k)) : d.Reads p len o := by
  have h0 : d.fetch p = d'.fetch j := hfetch 0 hm
  rw [Reads, if_neg (by omega)] at h
  rw [Reads, if_neg (by omega), h0]
  cases hf : d'.fetch j with
  | error e => simpa only [hf] using h
  | ok b =>
    cases b with
    | none => simpa only [hf] using h
    | some b =>
      simp only [hf] at h ⊢
      obtain ⟨bs, rfl, hbs, hlen, -, hget⟩ := h
      refine ⟨bs, rfl, hbs, by omega, by omega, ?_⟩
      intro k c hk
      have hlt : k < bs.length := (List.getElem?_eq_some_iff.mp hk).1
      rw [hfetch k (by omega)]
      exact hget k c hk

end Reads

theorem stream_of_size_le {n p : Nat} (hp : d.size ≤ p) : d.stream n p = ([], none) := by
  cases n with
  | zero => rfl
  | succ n => rw [stream, if_pos hp]

theorem stream_of_nil {n p len : Nat} (h : d.Reads p len (.ok [])) (hlen : len ≠ 0) :
    d.stream n p = ([], none) := by
  by_cases hp : d.size ≤ p
  · exact stream_of_size_le hp
  · cases n with
    | zero => rfl
    | succ n =>
      have hf := (h.nil_iff hlen (by omega)).mp rfl
      simp [stream, hp, hf]

theorem stream_of_error {n p len : Nat} {e : ε} (h : d.Reads p len (.error e)) (hn : 0 < n) :
    d.stream n p = ([], some e) := by
  have hc : ¬ (len = 0 ∨ d.size ≤ p) := by
    intro hc
    rw [Reads, if_pos hc] at h
    cases h
  have hf := (h.error_iff (by omega) (by omega) e).mp rfl
  obtain ⟨m, rfl⟩ : ∃ m, n = m + 1 := ⟨n - 1, by omega⟩
  rw [stream, if_neg (by omega), hf]

theorem stream_append {bs : List α} {n p : Nat} (hn : bs.length ≤ n)
    (hsize : bs ≠ [] → p + bs.length ≤ d.size)
    (hfetch : ∀ k b, bs[k]? = some b → d.fetch (p + k) = .ok (some b)) :
    d.stream n p = (bs ++ (d.stream (n - bs.length) (p + bs.length)).1,
      (d.stream (n - bs.length) (p + bs.length)).2) := by
  induction bs generalizing n p with
  | nil => simp
  | cons b bs ih =>
    have hs := hsize (by simp)
    simp only [List.length_cons] at hn hs ⊢
    obtain ⟨m, rfl⟩ : ∃ m, n = m + 1 := ⟨n - 1, by omega⟩
    have hb : d.fetch p = .ok (some b) := by simpa using hfetch 0 b rfl
    have hrest := ih (show bs.length ≤ m by omega) (fun _ => show p + 1 + bs.length ≤ d.size by omega)
      (fun k c hk => by
        have := hfetch (k + 1) c (by simpa using hk)
        rwa [show p + 1 + k = p + (k + 1) by omega])
    rw [stream, if_neg (by omega), hb, hrest]
    simp [show m + 1 - (bs.length + 1) = m - bs.length by omega,
      show p + (bs.length + 1) = p + 1 + bs.length by omega]

theorem stream_of_ok {n p len : Nat} {bs : List α} (h : d.Reads p len (.ok bs))
    (hn : bs.length ≤ n) :
    d.stream n p = (bs ++ (d.stream (n - bs.length) (p + bs.length)).1,
      (d.stream (n - bs.length) (p + bs.length)).2) :=
  stream_append hn h.ok_bounds.2.1 h.ok_bounds.2.2

theorem stream_of_defined {n p : Nat} {f : Nat → α} (hsize : p + n ≤ d.size)
    (hf : ∀ i, p ≤ i → i < p + n → d.fetch i = .ok (some (f i))) :
    d.stream n p = ((List.range' p n).map f, none) := by
  induction n generalizing p with
  | zero => rfl
  | succ n ih =>
    have hh := ih (p := p + 1) (by omega) (fun i hi hi' => hf i (by omega) (by omega))
    rw [stream, if_neg (by omega), hf p le_rfl (by omega)]
    simp [hh, List.range'_succ]

theorem stream_congr {d' : FlatDisk ε α} (hsize : d.size = d'.size)
    (hfetch : ∀ i, i < d.size → d.fetch i = d'.fetch i) (n p : Nat) :
    d.stream n p = d'.stream n p := by
  induction n generalizing p with
  | zero => rfl
  | succ n ih =>
    rw [stream, stream, ← hsize]
    by_cases hp : d.size ≤ p
    · rw [if_pos hp, if_pos hp]
    · rw [if_neg hp, if_neg hp, ← hfetch p (by omega), ih]

/-- The elements of a stream are those of the disk, in order. -/
theorem fetch_of_stream {n p k : Nat} {b : α} (h : (d.stream n p).1[k]? = some b) :
    p + k < d.size ∧ d.fetch (p + k) = .ok (some b) := by
  induction n generalizing p k with
  | zero => simp [stream] at h
  | succ n ih =>
    by_cases hp : d.size ≤ p
    · simp [stream_of_size_le hp] at h
    · cases hf : d.fetch p with
      | error e => simp [stream, hp, hf] at h
      | ok o =>
        cases o with
        | none => simp [stream, hp, hf] at h
        | some c =>
          simp only [stream, if_neg hp, hf] at h
          cases k with
          | zero =>
            obtain rfl : c = b := by simpa using h
            exact ⟨by omega, hf⟩
          | succ k =>
            have hh := ih (p := p + 1) (by simpa using h)
            rwa [show p + 1 + k = p + (k + 1) by omega] at hh

theorem length_stream_le (n p : Nat) : (d.stream n p).1.length ≤ n := by
  induction n generalizing p with
  | zero => exact Nat.zero_le _
  | succ n ih =>
    have hh := ih (p + 1)
    rw [stream]
    split
    · exact Nat.zero_le _
    · split
      · exact Nat.zero_le _
      · exact Nat.zero_le _
      · simp only [List.length_cons]
        omega

theorem stream_full {n p : Nat} (h : (d.stream n p).1.length = n) : (d.stream n p).2 = none := by
  induction n generalizing p with
  | zero => rfl
  | succ n ih =>
    by_cases hp : d.size ≤ p
    · rw [stream_of_size_le hp]
    · cases hf : d.fetch p with
      | error e => simp [stream, hp, hf] at h
      | ok o =>
        cases o with
        | none => simp [stream, hp, hf] at h
        | some b =>
          simp only [stream, if_neg hp, hf, List.length_cons] at h ⊢
          exact ih (by omega)

/-- A stream that stops early stops there however much more is asked for. -/
theorem stream_add_of_short {m p : Nat} (n : Nat) (h : (d.stream m p).1.length < m) :
    d.stream (m + n) p = d.stream m p := by
  induction m generalizing p with
  | zero => simp at h
  | succ m ih =>
    by_cases hp : d.size ≤ p
    · rw [stream_of_size_le hp, stream_of_size_le hp]
    · cases hf : d.fetch p with
      | error e => simp [stream, hp, hf, Nat.add_right_comm m 1 n]
      | ok o =>
        cases o with
        | none => simp [stream, hp, hf, Nat.add_right_comm m 1 n]
        | some b =>
          simp only [stream, if_neg hp, hf, List.length_cons] at h
          rw [Nat.add_right_comm m 1 n]
          simp only [stream, if_neg hp, hf, ih (show (d.stream m (p + 1)).1.length < m by omega)]

theorem stream_add_of_full {m p : Nat} (n : Nat) (h : (d.stream m p).1.length = m) :
    d.stream (m + n) p =
      ((d.stream m p).1 ++ (d.stream n (p + m)).1, (d.stream n (p + m)).2) := by
  have hsize : (d.stream m p).1 ≠ [] → p + (d.stream m p).1.length ≤ d.size := by
    intro hne
    have hlast := List.getElem?_eq_getElem
      (show (d.stream m p).1.length - 1 < (d.stream m p).1.length from
        Nat.sub_lt (List.length_pos_iff.mpr hne) Nat.one_pos)
    have hlt := (fetch_of_stream hlast).1
    omega
  have hsplit := stream_append (show (d.stream m p).1.length ≤ m + n by omega) hsize
    fun k b hk => (fetch_of_stream hk).2
  rw [h, Nat.add_sub_cancel_left] at hsplit
  exact hsplit

theorem stream_min (n p : Nat) : d.stream (min n (d.size - p)) p = d.stream n p := by
  obtain ⟨m, hm⟩ : ∃ m, m = min n (d.size - p) := ⟨_, rfl⟩
  obtain ⟨k, hk⟩ : ∃ k, n = m + k := ⟨n - m, by omega⟩
  rw [← hm, hk]
  rcases (length_stream_le m p : (d.stream m p).1.length ≤ m).lt_or_eq with hshort | hfull
  · rw [stream_add_of_short k hshort]
  · have hrest : d.stream k (p + m) = ([], none) := by
      rcases Nat.eq_zero_or_pos k with rfl | hpos
      · rfl
      · exact stream_of_size_le (by omega)
    rw [stream_add_of_full k hfull, hrest, List.append_nil, ← stream_full hfull]

theorem lt_of_fetch_ne {p q : Nat} {x y : Except ε (Option α)} (hle : p ≤ q) (hp : d.fetch p = x)
    (hq : d.fetch q = y) (hne : x ≠ y) : p < q := by
  apply lt_of_le_of_ne hle
  rintro rfl
  exact hne (hp.symm.trans hq)

/-- The stream falls silently short exactly when a missing element comes before
every fault. -/
theorem stream_short_iff {n p : Nat} (hsize : p + n ≤ d.size) :
    ((d.stream n p).2 ≠ none ∨ (d.stream n p).1.length = n) ↔
      ∀ q, p ≤ q → q < p + n → d.fetch q = .ok none →
        ∃ q' e, p ≤ q' ∧ q' < q ∧ d.fetch q' = .error e := by
  induction n generalizing p with
  | zero =>
    simp only [stream, List.length_nil, or_true, true_iff]
    intro q hq hq'
    omega
  | succ n ih =>
    have hp : ¬ d.size ≤ p := by omega
    cases hf : d.fetch p with
    | error e =>
      simp only [stream, if_neg hp, hf, ne_eq, reduceCtorEq, not_false_eq_true, true_or, true_iff]
      intro q hq hq' hnone
      exact ⟨p, e, le_rfl, lt_of_fetch_ne hq hf hnone (by simp), hf⟩
    | ok o =>
      cases o with
      | none =>
        simp only [stream, if_neg hp, hf, ne_eq, not_true_eq_false, List.length_nil, false_or]
        constructor
        · intro h
          omega
        · intro h
          obtain ⟨q', e, hle, hlt, -⟩ := h p le_rfl (by omega) hf
          omega
      | some b =>
        have hh := ih (p := p + 1) (by omega)
        simp only [stream, if_neg hp, hf, List.length_cons, Nat.add_right_cancel_iff]
        rw [hh]
        constructor
        · intro h q hq hq' hnone
          have hlt : p < q := lt_of_fetch_ne hq hf hnone (by simp)
          obtain ⟨q', e, hle, hlt', he⟩ := h q hlt (by omega) hnone
          exact ⟨q', e, by omega, hlt', he⟩
        · intro h q hq hq' hnone
          obtain ⟨q', e, hle, hlt', he⟩ := h q (by omega) (by omega) hnone
          exact ⟨q', e, lt_of_fetch_ne hle hf he (by simp), hlt', he⟩

end FlatDisk

end StdIo
