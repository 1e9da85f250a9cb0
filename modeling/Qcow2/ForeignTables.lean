import Qcow2.Findings

/-! Images whose L2 words are no plain entries of the file: behind which headers some tables make
the report accuse one of them. -/

namespace Qcow2

open StdIo

/-- A version-3 image whose L2 words are not plain entries of this file: external data
file (bit 2) or extended L2 entries (bit 4). -/
def ForeignL2 (c : Content) : Prop :=
  beAt c.1 4 4 = 3 ∧ 80 ≤ c.1.length ∧
    ((beAt c.1 72 8).testBit 2 = true ∨ (beAt c.1 72 8).testBit 4 = true)

theorem ForeignL2.of_head {c d : Content} (hhead : slice d.1 0 104 = slice c.1 0 104)
    (hforeign : ForeignL2 c) : ForeignL2 d := by
  obtain ⟨hversion, hlen, hbits⟩ := hforeign
  have hfield : ∀ off n, off + n ≤ 104 → beAt d.1 off n = beAt c.1 off n := by
    intro off n hin
    rw [← beAt_window d.1 hin, hhead, beAt_window c.1 hin]
  have hlen' := congrArg List.length hhead
  rw [length_slice, length_slice] at hlen'
  refine ⟨(hfield 4 4 (by omega)).trans hversion, by omega, ?_⟩
  rw [hfield 72 8 (by omega)]
  exact hbits

/-- The 8 bytes at `p` of a file that holds zeros behind its header. -/
def headerWord (hdr : List UInt8) (p : Nat) : Nat := beAt (hdr ++ List.replicate 8 0) p 8

/-- The header names a refcount table and an L1 table that lie within what a file can hold, and
some L1 word is not settled by the header's own bytes as one without an L2 table. The low two
bytes of a word from 98 on lie behind the header. -/
structure LeavesTables (hdr : List UInt8) (h : RefcountHeader) : Prop where
  length_eq : hdr.length = 104
  order_le : h.refcountOrder ≤ 6
  refcountTable : h.refcountTableOffset ≠ 0 ∧ h.refcountTableClusters ≠ 0 ∧
    h.refcountTableOffset + h.rtEntries * 8 < 2 ^ 63
  l1Table : h.l1TableOffset ≠ 0 ∧ h.l1TableOffset + h.l1Entries * 8 < 2 ^ 63
  l1Word : ∃ i, i < h.l1Entries ∧ (98 ≤ h.l1TableOffset + i * 8 ∨
    entryOffset (headerWord hdr (h.l1TableOffset + i * 8)) ≠ 0)

theorem entryOffset_mul_add {x y : Nat} (hy : y < 256) :
    entryOffset (x * 256 + y) = entryOffset (x * 256) := by
  unfold entryOffset
  omega

/-- Two low bytes give a table to a word that had none without them. -/
theorem entryOffset_of_low {x table : Nat} (h : entryOffset (x * 256 ^ 2) = 0)
    (htable : table = 512 ∨ table = 1024) : entryOffset (x * 256 ^ 2 + table) = table := by
  have hzero : x * 256 ^ 2 % 2 ^ 56 = 0 := by
    unfold entryOffset at h
    omega
  have hlow : (x * 256 ^ 2 + table) % 2 ^ 56 = table := by
    rw [Nat.add_mod, hzero, Nat.zero_add, Nat.mod_mod]
    omega
  rw [entryOffset, hlow]
  omega

/-- Below 98 only bits 0 to 7 of a word can lie behind the header. -/
theorem entryOffset_headerWord {hdr bytes : List UInt8} {p : Nat} (hhead : hdr <+: bytes)
    (hlen : hdr.length = 104) (hp : p < 98) (hin : p + 8 ≤ bytes.length) :
    entryOffset (headerWord hdr p) = entryOffset (beAt bytes p 8) := by
  have hlow : ∀ bs : List UInt8, hdr <+: bs → p + 8 ≤ bs.length →
      entryOffset (beAt bs p 8) = entryOffset (beAt hdr p 7 * 256) := by
    intro bs hbs hlt
    have hbyte : beAt bs (p + 7) 1 < 256 := beAt_lt bs (p + 7) 1
    rw [show 8 = 7 + 1 from rfl, beAt_add (by omega), ← beAt_of_isPrefix hbs (by omega), Nat.pow_one]
    exact entryOffset_mul_add hbyte
  rw [headerWord, hlow _ (List.prefix_append _ _) (by simp; omega), hlow _ hhead hin]

section Tables

variable {M : Medium} {offset n : Nat}

theorem tableIn_of_ne_nil {table : List Nat} (h : tableIn M offset n = .ok table) (hne : table ≠ []) :
    offset ≠ 0 ∧ n ≠ 0 ∧ offset + n * 8 ≤ M.bytes.length ∧
      table = (List.range n).map fun i => beAt M.bytes (offset + i * 8) 8 := by
  have hnone : ¬ (n = 0 ∨ offset = 0) := by
    intro hnone
    rw [tableIn, if_pos hnone] at h
    exact hne (Except.ok.inj h).symm
  have hin : offset + n * 8 ≤ M.bytes.length := by
    by_contra hout
    obtain ⟨e, he⟩ := (@tableIn_error_iff M offset n).mpr ⟨by omega, by omega, by omega⟩
    rw [he] at h
    cases h
  rw [tableIn_of_le (by omega) hin] at h
  exact ⟨by omega, by omega, hin, (Except.ok.inj h).symm⟩

theorem mem_tableIn {w : Nat} (hw : w ∈ (tableIn M offset n).toOption.getD []) :
    offset ≠ 0 ∧ offset + n * 8 ≤ M.bytes.length ∧
      ∃ i, i < n ∧ beAt M.bytes (offset + i * 8) 8 = w := by
  rcases tableIn_cases M offset n with ⟨e, he⟩ | ⟨table, ht⟩
  · simp [he, Except.toOption] at hw
  · rw [ht] at hw
    obtain ⟨hoff, -, hin, rfl⟩ := tableIn_of_ne_nil ht (List.ne_nil_of_mem hw)
    obtain ⟨i, hi, rfl⟩ := List.mem_map.mp hw
    exact ⟨hoff, hin, i, List.mem_range.mp hi, rfl⟩

end Tables

/-- An accused word was found through tables that the header names. -/
theorem leavesTables_of_accused {c : Content} {h : RefcountHeader} {refcountTable : List Nat} {o : Nat}
    (horder : h.refcountOrder ≤ 6)
    (htable : tableIn (Medium.file c) h.refcountTableOffset h.rtEntries = .ok refcountTable)
    (ho : o ∈ candidates (Medium.file c) h.clusterSize
      ((tableIn (Medium.file c) h.l1TableOffset h.l1Entries).toOption.getD []))
    (hzero : refcountIn (Medium.file c) refcountTable h.refcountOrder h.clusterSize
      (o / h.clusterSize) = some 0) : LeavesTables (slice c.1 0 104) h := by
  have hfile := c.2
  have hne : refcountTable ≠ [] := by
    rintro rfl
    simp [refcountIn] at hzero
  obtain ⟨htableOff, hentries, htableIn, -⟩ := tableIn_of_ne_nil htable hne
  rw [Medium.file_bytes] at htableIn
  have hclusters : h.refcountTableClusters ≠ 0 := by
    intro hnone
    exact hentries (by simp [RefcountHeader.rtEntries, hnone, asUsize])
  simp only [candidates, List.mem_flatMap] at ho
  obtain ⟨w, hw, ho⟩ := ho
  obtain ⟨hl1Off, hl1In, i, hi, rfl⟩ := mem_tableIn hw
  rw [Medium.file_bytes] at hl1In ho
  split at ho
  · cases ho
  · rename_i hfirst
    obtain ⟨e, he, -⟩ := List.mem_filterMap.mp ho
    obtain ⟨-, hl2In, j, hj, -⟩ := mem_tableIn he
    rw [Medium.file_bytes] at hl2In
    have hbig : 512 ≤ entryOffset (beAt c.1 (h.l1TableOffset + i * 8) 8) := by
      unfold entryOffset at hfirst ⊢
      omega
    have hlen : (slice c.1 0 104).length = 104 := by
      rw [length_slice]
      omega
    refine ⟨hlen, horder, ⟨htableOff, hclusters, by omega⟩, ⟨hl1Off, by omega⟩, i, hi, ?_⟩
    by_cases hlow : h.l1TableOffset + i * 8 < 98
    · have hhead : slice c.1 0 104 <+: c.1 := List.take_prefix _ _
      refine .inr ?_
      rw [entryOffset_headerWord hhead hlen hlow (by omega)]
      exact hfirst
    · exact .inl (by omega)

theorem flatMap_range_of_first {α : Type} {g : Nat → List α} {n i : Nat} (hi : i < n)
    (hbefore : ∀ j, j < i → g j = []) : ∃ rest, (List.range n).flatMap g = g i ++ rest := by
  obtain ⟨m, rfl⟩ : ∃ m, n = i + (m + 1) := ⟨n - i - 1, by omega⟩
  have hnone : (List.range i).flatMap g = [] := by
    rw [List.flatMap_eq_nil_iff]
    exact fun j hj => hbefore j (List.mem_range.mp hj)
  rw [List.range_add, List.flatMap_append, hnone, List.nil_append, List.range_succ_eq_map,
    List.map_cons, List.flatMap_cons]
  exact ⟨_, rfl⟩

/-- The first L1 word with an L2 table decides which host cluster the walk meets first. -/
theorem candidates_eq_cons {M : Medium} {clusterSize n i e o : Nat} {word : Nat → Nat}
    {rest : List Nat} (hi : i < n) (hbefore : ∀ j, j < i → entryOffset (word j) = 0)
    (hne : entryOffset (word i) ≠ 0)
    (htable : tableIn M (entryOffset (word i)) (clusterSize / 8) = .ok (e :: rest))
    (hhost : hostOf e = some o) :
    ∃ rest, candidates M clusterSize ((List.range n).map word) = o :: rest := by
  obtain ⟨more, hmore⟩ := flatMap_range_of_first (g := fun j => if entryOffset (word j) = 0 then []
    else ((tableIn M (entryOffset (word j)) (clusterSize / 8)).toOption.getD []).filterMap hostOf)
    hi (fun j hj => if_pos (hbefore j hj))
  rw [candidates, List.flatMap_map, hmore, if_neg hne, htable, Except.toOption, Option.getD_some,
    List.filterMap_cons, hhost]
  exact ⟨_, rfl⟩

/-- A file behind the header that is blank but for the L1 word `i`, the first with an L2 table,
whose first word overlaps none of the L1 words up to it. -/
structure FirstTable (hdr bytes : List UInt8) (l1Off i table : Nat) : Prop where
  head : hdr <+: bytes
  before : ∀ j, j < i → entryOffset (beAt bytes (l1Off + j * 8) 8) = 0
  here : entryOffset (beAt bytes (l1Off + i * 8) 8) = table
  table_ge : 512 ≤ table
  table_lt : table < 2 ^ 56
  apart : table + 8 ≤ l1Off ∨ l1Off + i * 8 + 8 ≤ table
  blank : ∀ x, 104 ≤ x → x < bytes.length → x < l1Off + i * 8 ∨ l1Off + i * 8 + 8 ≤ x →
    bytes[x]? = some 0

section Blank

variable {hdr base : List UInt8} {l1Off n : Nat}

theorem slice_of_head {bytes : List UInt8} (hhead : hdr <+: bytes) (hlen : hdr.length = 104) :
    slice bytes 0 104 = hdr := by
  rw [← slice_of_isPrefix hhead (by omega), ← hlen]
  exact List.take_length

/-- The header's own bytes name the first table. -/
theorem exists_firstTable_named (hhead : hdr <+: base)
    (hblank : ∀ x, 104 ≤ x → x < base.length → base[x]? = some 0) (hin : l1Off + n * 8 ≤ base.length)
    (hsome : ∃ i, i < n ∧ entryOffset (beAt base (l1Off + i * 8) 8) ≠ 0) :
    ∃ i table, i < n ∧ FirstTable hdr base l1Off i table := by
  obtain ⟨i, hi, hne, hbefore⟩ : ∃ i, i < n ∧ entryOffset (beAt base (l1Off + i * 8) 8) ≠ 0 ∧
      ∀ j, j < i → entryOffset (beAt base (l1Off + j * 8) 8) = 0 := by
    classical
    obtain ⟨hi, hne⟩ := Nat.find_spec hsome
    refine ⟨Nat.find hsome, hi, hne, ?_⟩
    intro j hj
    by_contra hj'
    exact Nat.find_min hsome hj ⟨hj.trans hi, hj'⟩
  have hlow : l1Off + i * 8 < 104 := by
    by_contra hhigh
    rw [beAt_eq_zero fun x hle hlt => hblank x (by omega) (by omega)] at hne
    exact hne rfl
  have hbounds : 512 ≤ entryOffset (beAt base (l1Off + i * 8) 8) ∧
      entryOffset (beAt base (l1Off + i * 8) 8) < 2 ^ 56 := by
    unfold entryOffset at hne ⊢
    omega
  exact ⟨i, _, hi, hhead, hbefore, rfl, hbounds.1, hbounds.2, .inr (by omega),
    fun x hx hlt _ => hblank x hx hlt⟩

/-- No word has a table, and the low bytes of word `i` are free to give it one. -/
theorem exists_firstTable_free (hhead : hdr <+: base) (hlen : hdr.length = 104)
    (hblank : ∀ x, 104 ≤ x → x < base.length → base[x]? = some 0) {i : Nat}
    (hin : l1Off + i * 8 + 8 ≤ base.length)
    (hnone : ∀ j, j ≤ i → entryOffset (beAt base (l1Off + j * 8) 8) = 0)
    (hfree : 98 ≤ l1Off + i * 8) (hfirst : i = 0 ∨ l1Off + i * 8 < 106) :
    ∃ bytes table, bytes.length = base.length ∧ FirstTable hdr bytes l1Off i table := by
  obtain ⟨table, htable, hsmall, hapart⟩ : ∃ table, (table = 512 ∨ table = 1024) ∧
      table < 256 ^ 2 ∧ (table + 8 ≤ l1Off ∨ l1Off + i * 8 + 8 ≤ table) := by
    by_cases hlow : l1Off + i * 8 + 8 ≤ 512 ∨ 520 ≤ l1Off
    · exact ⟨512, by omega, by omega, by omega⟩
    · exact ⟨1024, by omega, by omega, by omega⟩
  have hle : l1Off + i * 8 + 6 ≤ base.length := by omega
  have hout : l1Off + i * 8 + 6 + (beBytes 2 table).length ≤ base.length := by
    rw [length_beBytes]
    omega
  have hkept : ∀ q m, q + m ≤ l1Off + i * 8 + 6 →
      beAt (overwrite base (l1Off + i * 8 + 6) (beBytes 2 table)) q m = beAt base q m := by
    intro q m hq
    rw [beAt, slice_overwrite_of_apart hle (.inl hq), beAt]
  refine ⟨overwrite base (l1Off + i * 8 + 6) (beBytes 2 table), table, length_overwrite hout,
    ?_, ?_, ?_, by omega, by omega, hapart, ?_⟩
  · have hwindow : slice (overwrite base (l1Off + i * 8 + 6) (beBytes 2 table)) 0 104 = hdr := by
      rw [slice_overwrite_of_apart hle (.inl (by omega))]
      exact slice_of_head hhead hlen
    exact hwindow ▸ List.take_prefix _ _
  · intro j hj
    rw [hkept _ _ (by omega)]
    exact hnone j hj.le
  · have hzero : beAt base (l1Off + i * 8 + 6) 2 = 0 :=
      beAt_eq_zero fun x hx hlt => hblank x (by omega) (by omega)
    have hsplit : ∀ bs : List UInt8, l1Off + i * 8 + 8 ≤ bs.length → beAt bs (l1Off + i * 8) 8 =
        beAt bs (l1Off + i * 8) 6 * 256 ^ 2 + beAt bs (l1Off + i * 8 + 6) 2 :=
      fun bs hbs => @beAt_add bs (l1Off + i * 8) 6 2 (by omega)
    have hbefore := hnone i le_rfl
    rw [hsplit base hin, hzero, Nat.add_zero] at hbefore
    rw [hsplit _ (by rw [length_overwrite hout]; omega), hkept _ _ (by omega),
      beAt_overwrite hle hsmall]
    exact entryOffset_of_low hbefore htable
  · intro x hx hlt hapart'
    rw [length_overwrite hout] at hlt
    rw [getElem?_overwrite hle, if_neg (by rw [length_beBytes]; omega)]
    exact hblank x hx hlt

theorem exists_firstTable (hlen : hdr.length = 104) {size : Nat} (hsize : 104 ≤ size)
    (hin : l1Off + n * 8 ≤ size) (hword : ∃ i, i < n ∧ (98 ≤ l1Off + i * 8 ∨
      entryOffset (headerWord hdr (l1Off + i * 8)) ≠ 0)) :
    ∃ bytes i table, i < n ∧ bytes.length = size ∧ FirstTable hdr bytes l1Off i table := by
  obtain ⟨base, hbase⟩ : ∃ base, base = hdr ++ List.replicate (size - 104) 0 := ⟨_, rfl⟩
  have hbaseLen : base.length = size := by
    rw [hbase, List.length_append, List.length_replicate]
    omega
  have hhead : hdr <+: base := hbase ▸ List.prefix_append _ _
  have hblank : ∀ x, 104 ≤ x → x < base.length → base[x]? = some 0 := by
    intro x hx hlt
    rw [hbase, List.getElem?_append_right (by omega), List.getElem?_replicate, if_pos (by omega)]
  by_cases hsome : ∃ i, i < n ∧ entryOffset (beAt base (l1Off + i * 8) 8) ≠ 0
  · obtain ⟨i, table, hi, hfirst⟩ := exists_firstTable_named hhead hblank (by omega) hsome
    exact ⟨base, i, table, hi, hbaseLen, hfirst⟩
  · have hnone : ∀ j, j < n → entryOffset (beAt base (l1Off + j * 8) 8) = 0 := by
      intro j hj
      by_contra hne
      exact hsome ⟨j, hj, hne⟩
    -- the first word whose low bytes are free is given a table
    obtain ⟨i, hi, hfree, hlow⟩ : ∃ i, i < n ∧ 98 ≤ l1Off + i * 8 ∧
        (i = 0 ∨ l1Off + i * 8 < 106) := by
      obtain ⟨k, hk, hfree⟩ := hword
      have hbehind : 98 ≤ l1Off + k * 8 := by
        rcases hfree with hfree | hne
        · exact hfree
        · by_contra hlow
          rw [entryOffset_headerWord hhead hlen (by omega) (by omega), hnone k hk] at hne
          exact hne rfl
      exact ⟨(105 - l1Off) / 8, by omega, by omega, by omega⟩
    obtain ⟨bytes, table, hbytes, hfirst⟩ := exists_firstTable_free hhead hlen hblank
      (show l1Off + i * 8 + 8 ≤ base.length by omega) (fun j hj => hnone j (by omega)) hfree hlow
    exact ⟨bytes, i, table, hi, hbytes.trans hbaseLen, hfirst⟩

/-- The first word of the table can be any, with nothing else changed. -/
theorem FirstTable.place {bytes : List UInt8} {i table : Nat}
    (hfirst : FirstTable hdr bytes l1Off i table) (hlen : hdr.length = 104)
    (hfit : table + 8 ≤ bytes.length) {x : Nat} (hx : x < 256 ^ 8) :
    ∃ full, full.length = bytes.length ∧ slice full 0 104 = hdr ∧
      (∀ q, q + 8 ≤ table ∨ table + 8 ≤ q → beAt full q 8 = beAt bytes q 8) ∧
      beAt full table 8 = x := by
  have hle : table ≤ bytes.length := by omega
  have hge := hfirst.table_ge
  refine ⟨overwrite bytes table (beBytes 8 x), length_overwrite (by rw [length_beBytes]; omega), ?_,
    ?_, beAt_overwrite hle hx⟩
  · rw [slice_overwrite_of_apart hle (.inl (by omega))]
    exact slice_of_head hfirst.head hlen
  · intro q hq
    rw [beAt, slice_overwrite_of_apart hle (by rw [length_beBytes]; exact hq), beAt]

end Blank

section Accused

variable {hdr : List UInt8} {h : RefcountHeader}

theorem hostOf_of_dvd {o : Nat} (hdvd : 512 ∣ o) (hpos : 0 < o) (hlt : o < 2 ^ 56) :
    hostOf o = some o := by
  have hoffset : entryOffset o = o := by
    unfold entryOffset
    omega
  have hplain : o.testBit 62 = false := Nat.testBit_lt_two_pow (by omega)
  rw [hostOf, if_neg, hoffset]
  rw [hoffset, hplain]
  simp only [Bool.false_eq_true, false_or, not_or]
  omega

/-- Of three slots of the refcount table one lies apart from two given words. -/
theorem exists_slot_apart (start p q : Nat) : ∃ s, 13 ≤ s ∧ s ≤ 17 ∧
    (start + s * 8 + 8 ≤ p ∨ p + 8 ≤ start + s * 8) ∧
    (start + s * 8 + 8 ≤ q ∨ q + 8 ≤ start + s * 8) := by
  by_contra hnone
  simp only [not_exists, not_and] at hnone
  have h13 := hnone 13
  have h15 := hnone 15
  have h17 := hnone 17
  omega

/-- A cluster whose block the refcount table leaves out in slot `s`. -/
theorem refcountIn_of_unset {M : Medium} {refcountTable : List Nat} {order clusterSize s : Nat}
    (hper : 0 < clusterSize * 8 / 2 ^ order) (hslot : refcountTable[s]? = some 0) :
    refcountIn M refcountTable order clusterSize (s * (clusterSize * 8 / 2 ^ order)) = some 0 := by
  simp only [refcountIn, if_neg hper.ne', Nat.mul_div_cancel _ hper, hslot, Option.bind_some,
    Nat.zero_and, if_true]

theorem rtEntries_ge (hp : RefcountHeader.parse hdr = .ok h) (hclusters : h.refcountTableClusters ≠ 0) :
    64 ≤ h.rtEntries := by
  have hmost := RefcountHeader.tableBytes_le hp
  have hleast : 1 * 2 ^ 9 ≤ h.refcountTableClusters * h.clusterSize :=
    Nat.mul_le_mul (by omega) h.clusterSize_bounds.1
  have hmax : maxL1Entries = 2 ^ 20 := rfl
  rw [RefcountHeader.rtEntries, asUsize_of_lt (by omega), hmax]
  omega

/-- The host offset whose refcount is the first of slot `s`. -/
theorem slot_offset (h : RefcountHeader) (horder : h.refcountOrder ≤ 6) {s : Nat} (hs : 13 ≤ s)
    (hs' : s ≤ 17) : ∃ o, hostOf o = some o ∧ o < 2 ^ 56 ∧
      ∀ (M : Medium) refcountTable, refcountTable[s]? = some 0 →
        refcountIn M refcountTable h.refcountOrder h.clusterSize (o / h.clusterSize) = some 0 := by
  obtain ⟨hlow, hhigh⟩ := h.clusterSize_bounds
  have hwidth : 2 ^ h.refcountOrder ≤ 2 ^ 6 := Nat.pow_le_pow_right (by omega) horder
  have hdvd : 2 ^ 9 ∣ h.clusterSize := by
    rw [RefcountHeader.clusterSize, Nat.one_shiftLeft]
    exact Nat.pow_dvd_pow 2 h.clusterBits_range.1
  obtain ⟨perBlock, hperBlock⟩ : ∃ perBlock, perBlock = h.clusterSize * 8 / 2 ^ h.refcountOrder :=
    ⟨_, rfl⟩
  have hper : 0 < perBlock := hperBlock ▸ Nat.div_pos (by omega) (by positivity)
  have hle : perBlock ≤ h.clusterSize * 8 := hperBlock ▸ Nat.div_le_self _ _
  have hmost : s * perBlock * h.clusterSize ≤ 17 * 2 ^ 23 * 2 ^ 20 :=
    Nat.mul_le_mul (Nat.mul_le_mul hs' (by omega)) hhigh
  have hpos : 0 < s * perBlock * h.clusterSize :=
    Nat.mul_pos (Nat.mul_pos (by omega) hper) (by omega)
  refine ⟨s * perBlock * h.clusterSize, hostOf_of_dvd (hdvd.mul_left _) hpos (by omega), by omega, ?_⟩
  intro M refcountTable hslot
  rw [Nat.mul_div_cancel _ (by omega), hperBlock]
  exact refcountIn_of_unset (hperBlock ▸ hper) hslot

theorem exists_accused (hp : RefcountHeader.parse hdr = .ok h) (hleaves : LeavesTables hdr h) :
    ∃ c : Content, slice c.1 0 104 = hdr ∧ ¬ NoneUnreferenced c := by
  obtain ⟨hlen, horder, ⟨hrtOff, hclusters, hrtIn⟩, ⟨hl1Off, hl1In⟩, hword⟩ := hleaves
  obtain ⟨size, hsize⟩ : ∃ size, size = 2 ^ 63 - 1 := ⟨_, rfl⟩
  obtain ⟨bytes, i, table, hi, hbytes, hfirst⟩ :=
    exists_firstTable hlen (show 104 ≤ size by omega) (by omega) hword
  obtain ⟨s, hs, hs', hword, htable⟩ :=
    exists_slot_apart h.refcountTableOffset (h.l1TableOffset + i * 8) table
  have hentries := rtEntries_ge hp hclusters
  have hcs := h.clusterSize_bounds
  obtain ⟨o, hhost, ho, hunset⟩ := slot_offset h horder hs hs'
  have hge := hfirst.table_ge
  have hlt := hfirst.table_lt
  have hapart := hfirst.apart
  obtain ⟨full, hfullLen, hhead, hkept, hplaced⟩ := hfirst.place (x := o) hlen (by omega) (by omega)
  obtain ⟨c, hc⟩ : ∃ c : Content, c.1 = full := ⟨⟨full, by omega⟩, rfl⟩
  have hbytes : (Medium.file c).bytes = full := (Medium.file_bytes c).trans hc
  refine ⟨c, hc.symm ▸ hhead, ?_⟩
  intro hnone
  have hslot : ((List.range h.rtEntries).map fun k =>
      beAt (Medium.file c).bytes (h.refcountTableOffset + k * 8) 8)[s]? = some 0 := by
    have hzero : beAt bytes (h.refcountTableOffset + s * 8) 8 = 0 :=
      beAt_eq_zero fun x hx hx' => hfirst.blank x (by omega) (by omega) (by omega)
    rw [List.getElem?_map, List.getElem?_range (by omega), Option.map_some, hbytes,
      hkept _ htable, hzero]
  obtain ⟨rest, hl2⟩ : ∃ rest, tableIn (Medium.file c) table (h.clusterSize / 8) =
      .ok (o :: rest) := by
    obtain ⟨m, hm⟩ : ∃ m, h.clusterSize / 8 = m + 1 := ⟨h.clusterSize / 8 - 1, by omega⟩
    rw [tableIn_of_le (by omega) (by rw [hbytes]; omega), hm, List.range_succ_eq_map, List.map_cons,
      Nat.zero_mul, Nat.add_zero, hbytes, hplaced]
    exact ⟨_, rfl⟩
  have hbefore : ∀ j, j < i → entryOffset (beAt full (h.l1TableOffset + j * 8) 8) = 0 := by
    intro j hj
    rw [hkept _ (by omega)]
    exact hfirst.before j hj
  have hhere : entryOffset (beAt full (h.l1TableOffset + i * 8) 8) = table := by
    rw [hkept _ (by omega)]
    exact hfirst.here
  obtain ⟨more, hcands⟩ := @candidates_eq_cons (Medium.file c) h.clusterSize h.l1Entries i o o
    (fun j => beAt full (h.l1TableOffset + j * 8) 8) rest hi hbefore (by omega)
    (hhere.symm ▸ hl2) hhost
  have hmem : o ∈ (candidates (Medium.file c) h.clusterSize
      ((tableIn (Medium.file c) h.l1TableOffset h.l1Entries).toOption.getD [])).take
        maxClustersScanned := by
    obtain ⟨n, hn⟩ : ∃ n, maxClustersScanned = n + 1 := ⟨16 <<< 20 - 1, rfl⟩
    rw [tableIn_of_le hl1Off (by rw [hbytes]; omega), Except.toOption, Option.getD_some, hbytes,
      hcands, hn, List.take_succ_cons]
    exact List.mem_cons_self
  exact hnone h _ (hc.symm ▸ hhead.symm ▸ hp) horder
    (tableIn_of_le hrtOff (by rw [hbytes]; omega)) o hmem (hunset _ _ hslot)

end Accused

/-- Behind a header the report accuses no word of an image with foreign L2 words, whatever its
tables hold, exactly when the header leaves no such tables. -/
theorem foreign_words_unaccused_iff (c₀ : Content) :
    (∀ c : Content, slice c.1 0 104 = slice c₀.1 0 104 → ForeignL2 c →
      (∃ e, refcountReport (File.opened c) = .error e) ∨
        ∃ report, refcountReport (File.opened c) = .ok report ∧ report.orphanClusters = 0) ↔
    (ForeignL2 c₀ → ∀ h, RefcountHeader.parse (slice c₀.1 0 104) = .ok h →
      ¬ LeavesTables (slice c₀.1 0 104) h) := by
  simp only [no_orphans_iff]
  constructor
  · intro hall hforeign h hp hleaves
    obtain ⟨c, hhead, haccused⟩ := exists_accused hp hleaves
    exact haccused (hall c hhead (hforeign.of_head hhead))
  · intro hnone c hhead hforeign h refcountTable hp horder htable o ho hzero
    rw [hhead] at hp
    have hleaves := leavesTables_of_accused horder htable (List.mem_of_mem_take ho) hzero
    rw [hhead] at hleaves
    exact hnone (hforeign.of_head hhead.symm) h hp hleaves

/-- Extended L2 entries: the first 16-byte entry is unallocated with a bitmap whose
bits 9 to 55 are not all zero. -/
def bitmapImage : Content :=
  ⟨headerBytes 3 9 512 1 104 528 1 ++ headerTail (1 <<< 4) 4 ++ beBytes 8 512 ++
    List.replicate 400 0 ++ beBytes 8 0 ++ beBytes 8 4096 ++ List.replicate 512 0,
    by simp only [List.length_append, length_headerBytes, length_headerTail, length_beBytes,
      List.length_replicate]; norm_num⟩

theorem bitmap_word_accused : ForeignL2 bitmapImage ∧
    (refcountReport (File.opened bitmapImage)).toOption.map
      (fun report => (report.allocatedClusters, report.orphanClusters)) = some (1, 1) := by
  refine ⟨⟨by decide +kernel, by decide +kernel, .inr (by decide +kernel)⟩, ?_⟩
  decide +kernel

end Qcow2
