import Qcow2.Snapshots

/-! The snapshot enumeration as a function of the file's bytes: a walk over
variable-length records. -/

namespace Qcow2

open StdIo

def idSize (bytes : List UInt8) (p : Nat) : Nat := beAt bytes (p + 12) 2

def nameSize (bytes : List UInt8) (p : Nat) : Nat := beAt bytes (p + 14) 2

def extraDataSize (bytes : List UInt8) (p : Nat) : Nat := beAt bytes (p + 36) 4

def skippedExtra (bytes : List UInt8) (p : Nat) : Nat := min (extraDataSize bytes p) maxExtraData

/-- The bytes of the record at `p`, without padding, if its extra data takes `extra`. -/
def recordSize (bytes : List UInt8) (p extra : Nat) : Nat :=
  snapshotHeaderFixed + extra + idSize bytes p + nameSize bytes p

def recordAt (bytes : List UInt8) (p extra : Nat) : Qcow2Snapshot where
  id := fromUtf8Lossy (slice bytes (p + snapshotHeaderFixed + extra) (idSize bytes p))
  name := fromUtf8Lossy
    (slice bytes (p + snapshotHeaderFixed + extra + idSize bytes p) (nameSize bytes p))
  dateUnixSecs := beAt bytes (p + 16) 4
  dateNsecs := beAt bytes (p + 20) 4
  vmStateSize := beAt bytes (p + 32) 4

def roundUp8 (n : Nat) : Nat := (n + 7) / 8 * 8

theorem le_roundUp8 (n : Nat) : n ≤ roundUp8 n := by
  unfold roundUp8
  omega

theorem add_pad (n : Nat) : n + (8 - n % 8) % 8 = roundUp8 n := by
  unfold roundUp8
  omega

/-- Where the parser stands behind the record at `p`, before its padding. -/
def recordEnd (bytes : List UInt8) (p : Nat) : Nat := p + recordSize bytes p (skippedExtra bytes p)

def nextRecord (bytes : List UInt8) (p : Nat) : Nat :=
  p + roundUp8 (recordSize bytes p (skippedExtra bytes p))

/-- At most `n` records from `p` on, up to the first that does not end in the file. -/
def recordsFrom (bytes : List UInt8) : Nat → Nat → List Qcow2Snapshot
  | 0, _ => []
  | n + 1, p =>
    if bytes.length < recordEnd bytes p then []
    else recordAt bytes p (skippedExtra bytes p) :: recordsFrom bytes n (nextRecord bytes p)

theorem fixed_le_recordEnd (bytes : List UInt8) (p : Nat) :
    p + snapshotHeaderFixed ≤ recordEnd bytes p := by
  unfold recordEnd recordSize
  omega

theorem recordEnd_le_nextRecord (bytes : List UInt8) (p : Nat) :
    recordEnd bytes p ≤ nextRecord bytes p :=
  Nat.add_le_add_left (le_roundUp8 _) p

theorem recordsFrom_of_lt {bytes : List UInt8} {n p : Nat} (h : bytes.length < recordEnd bytes p) :
    recordsFrom bytes n p = [] := by
  cases n with
  | zero => rfl
  | succ n => rw [recordsFrom, if_pos h]

theorem length_recordsFrom_le (bytes : List UInt8) (n p : Nat) :
    (recordsFrom bytes n p).length ≤ n := by
  induction n generalizing p with
  | zero => exact le_rfl
  | succ n ih =>
    rw [recordsFrom]
    split_ifs
    · exact Nat.zero_le _
    · exact Nat.succ_le_succ (ih _)

theorem recordsFrom_eq_nil_iff {bytes : List UInt8} {n p : Nat} :
    recordsFrom bytes n p = [] ↔ n = 0 ∨ bytes.length < recordEnd bytes p := by
  cases n with
  | zero => simp [recordsFrom]
  | succ n =>
    rw [recordsFrom]
    split_ifs with h <;> simp [h]

section Walk

variable {β : Type} [FileSource β] {c : Content} {cursor : β → Nat → Prop} {b : β} {p : Nat}

theorem attempt_readExact_some (S : ServesFile c cursor) (hb : cursor b p) {n : Nat}
    (hn : p + n ≤ c.1.length) :
    ∃ b', cursor b' (p + n) ∧
      (attempt (readExact n) : EStateM Qcow2Error β _).run b = .ok (some (slice c.1 p n)) b' := by
  have hlen := length_slice_of_le hn
  obtain ⟨b', hb', hrun⟩ := S.readExact n hb
  rw [Medium.file_bytes, hlen] at hb'
  rw [Medium.file_bytes, hlen, if_neg (by omega)] at hrun
  refine ⟨b', hb', ?_⟩
  simp only [EStateM.run] at hrun ⊢
  simp only [attempt, EStateM.run, hrun, withState_ok]

theorem attempt_readExact_none (S : ServesFile c cursor) (hb : cursor b p) {n : Nat} (hn : n ≠ 0)
    (hlt : c.1.length < p + n) :
    ∃ b', (attempt (readExact n) : EStateM Qcow2Error β _).run b = .ok none b' := by
  have hlen := length_slice c.1 p n
  obtain ⟨b', -, hrun⟩ := S.readExact n hb
  rw [Medium.file_bytes, if_pos (by omega)] at hrun
  refine ⟨b', ?_⟩
  simp only [EStateM.run] at hrun ⊢
  simp only [attempt, EStateM.run, hrun, withState_error]

theorem attempt_skip (S : ServesFile c cursor) (hb : cursor b p) (n : Nat) :
    ∃ b', cursor b' (if c.1.length < p + n then p else p + n) ∧
      (attempt (skip n) : EStateM Qcow2Error β _).run b =
        .ok (if c.1.length < p + n then none else some ()) b' := by
  have hfile := c.2
  obtain ⟨b₁, hb₁, hlen⟩ := S.len hb
  obtain ⟨b₂, hb₂, htell⟩ := S.tell hb₁
  by_cases hlt : c.1.length < p + n
  · refine ⟨b₂, by rwa [if_pos hlt], ?_⟩
    obtain ⟨e, hskip⟩ : ∃ e, (skip n : EStateM IoError β Unit).run b = .error e b₂ := by
      simp only [skip, EStateM.run_bind, hlen, htell,
        if_pos (show c.1.length < min (p + n) (2 ^ 64 - 1) by omega)]
      exact ⟨_, rfl⟩
    rw [if_pos hlt]
    simp only [EStateM.run] at hskip ⊢
    simp only [attempt, EStateM.run, hskip]
  · have hmin : min (p + n) (2 ^ 64 - 1) = p + n := by omega
    obtain ⟨b₃, hb₃, hseek⟩ := S.seek_ok (p + n) hb₂
      (by simp only [Medium.file_seekable, decide_eq_true_eq]; omega)
    refine ⟨b₃, by rwa [if_neg hlt], ?_⟩
    have hskip : (skip n : EStateM IoError β Unit).run b = .ok () b₃ := by
      simp only [skip, EStateM.run_bind, hlen, htell, hmin, if_neg hlt, hseek]
      rfl
    rw [if_neg hlt]
    simp only [EStateM.run] at hskip ⊢
    simp only [attempt, EStateM.run, hskip]

theorem skip_guarded (S : ServesFile c cursor) (hb : cursor b p) (n : Nat) :
    ∃ b', cursor b' (if 0 < n ∧ c.1.length < p + n then p else p + n) ∧
      (if 0 < n then attempt (skip n) else pure (some ()) :
        EStateM Qcow2Error β (Option Unit)).run b =
          .ok (if 0 < n ∧ c.1.length < p + n then none else some ()) b' := by
  by_cases hn : 0 < n
  · simpa only [hn, true_and, if_true] using attempt_skip S hb n
  · obtain rfl : n = 0 := by omega
    exact ⟨b, by simpa using hb, by simp⟩

theorem readString_some (S : ServesFile c cursor) (hb : cursor b p) {n : Nat}
    (hn : p + n ≤ c.1.length) :
    ∃ b', cursor b' (p + n) ∧
      (readString n).run b = .ok (some (fromUtf8Lossy (slice c.1 p n))) b' := by
  by_cases hz : n = 0
  · subst hz
    refine ⟨b, hb, ?_⟩
    rw [slice_zero_right]
    rfl
  · obtain ⟨b', hb', hrun⟩ := attempt_readExact_some S hb hn
    refine ⟨b', hb', ?_⟩
    simp only [readString, if_neg hz, EStateM.run_bind, hrun]
    rfl

theorem readString_none (S : ServesFile c cursor) (hb : cursor b p) {n : Nat} (hn : n ≠ 0)
    (hlt : c.1.length < p + n) : ∃ b', (readString n).run b = .ok none b' := by
  obtain ⟨b', hrun⟩ := attempt_readExact_none S hb hn hlt
  refine ⟨b', ?_⟩
  simp only [readString, if_neg hn, EStateM.run_bind, hrun]
  rfl

theorem fixed_fields {n off : Nat} (hp : p + snapshotHeaderFixed ≤ c.1.length)
    (h : off + n ≤ snapshotHeaderFixed) :
    beUint n (slice c.1 p snapshotHeaderFixed) off = beAt c.1 (p + off) n := by
  have hlen := length_slice_of_le hp
  rw [beUint_of_le (by omega), beAt_slice h]

theorem min_strLen (bytes : List UInt8) (p : Nat) : min (beAt bytes p 2) maxStrLen = beAt bytes p 2 := by
  have hlt := beAt_lt bytes p 2
  have hmax : maxStrLen = 256 ^ 2 := rfl
  omega

theorem record_sizes (hfixed : p + snapshotHeaderFixed ≤ c.1.length) :
    min (beU32 (slice c.1 p snapshotHeaderFixed) 36) maxExtraData = skippedExtra c.1 p ∧
      min (beU16 (slice c.1 p snapshotHeaderFixed) 12) maxStrLen = idSize c.1 p ∧
      min (beU16 (slice c.1 p snapshotHeaderFixed) 14) maxStrLen = nameSize c.1 p := by
  refine ⟨?_, ?_, ?_⟩
  · rw [beU32, fixed_fields hfixed (by decide)]
    rfl
  · rw [beU16, fixed_fields hfixed (by decide), min_strLen, idSize]
  · rw [beU16, fixed_fields hfixed (by decide), min_strLen, nameSize]

theorem recordEnd_eq (bytes : List UInt8) (p : Nat) : recordEnd bytes p =
    p + snapshotHeaderFixed + skippedExtra bytes p + idSize bytes p + nameSize bytes p := by
  simp only [recordEnd, recordSize, Nat.add_assoc]

theorem readSnapshot_none (S : ServesFile c cursor) (hb : cursor b p)
    (hlt : c.1.length < recordEnd c.1 p) : ∃ b', readSnapshot.run b = .ok none b' := by
  rw [recordEnd_eq] at hlt
  by_cases hfixed : p + snapshotHeaderFixed ≤ c.1.length
  · obtain ⟨hextra, hid, hname⟩ := record_sizes hfixed
    obtain ⟨b₁, hb₁, hrun₁⟩ := attempt_readExact_some S hb hfixed
    obtain ⟨b₂, hb₂, hrun₂⟩ := skip_guarded S hb₁ (skippedExtra c.1 p)
    by_cases hskip : 0 < skippedExtra c.1 p ∧
        c.1.length < p + snapshotHeaderFixed + skippedExtra c.1 p
    · rw [if_pos hskip] at hrun₂
      refine ⟨b₂, ?_⟩
      simp only [readSnapshot, EStateM.run_bind, hrun₁, hextra, hrun₂]
      rfl
    · rw [if_neg hskip] at hb₂ hrun₂
      by_cases hidIn : p + snapshotHeaderFixed + skippedExtra c.1 p + idSize c.1 p ≤ c.1.length
      · obtain ⟨b₃, hb₃, hrun₃⟩ := readString_some S hb₂ hidIn
        obtain ⟨b₄, hrun₄⟩ := readString_none S hb₃ (n := nameSize c.1 p) (by omega) (by omega)
        refine ⟨b₄, ?_⟩
        simp only [readSnapshot, EStateM.run_bind, hrun₁, hextra, hid, hname, hrun₂, hrun₃, hrun₄]
        rfl
      · obtain ⟨b₃, hrun₃⟩ := readString_none S hb₂ (n := idSize c.1 p) (by omega) (by omega)
        refine ⟨b₃, ?_⟩
        simp only [readSnapshot, EStateM.run_bind, hrun₁, hextra, hid, hrun₂, hrun₃]
        rfl
  · obtain ⟨b₁, hrun₁⟩ := attempt_readExact_none S hb
      (show snapshotHeaderFixed ≠ 0 by decide) (show c.1.length < p + snapshotHeaderFixed by omega)
    refine ⟨b₁, ?_⟩
    simp only [readSnapshot, EStateM.run_bind, hrun₁]
    rfl

/-- Behind a complete record the parser stands at the next one, or so close to the
end of the file that no record follows. -/
theorem readSnapshot_some (S : ServesFile c cursor) (hb : cursor b p)
    (hle : recordEnd c.1 p ≤ c.1.length) :
    ∃ b' q, cursor b' q ∧
      (q = nextRecord c.1 p ∨ q = recordEnd c.1 p ∧ c.1.length < nextRecord c.1 p) ∧
      readSnapshot.run b = .ok (some (recordAt c.1 p (skippedExtra c.1 p))) b' := by
  have hfixed := (fixed_le_recordEnd c.1 p).trans hle
  obtain ⟨hextra, hid, hname⟩ := record_sizes hfixed
  have hend := recordEnd_eq c.1 p
  obtain ⟨b₁, hb₁, hrun₁⟩ := attempt_readExact_some S hb hfixed
  obtain ⟨b₂, hb₂, hrun₂⟩ := skip_guarded S hb₁ (skippedExtra c.1 p)
  have hin : ¬ (0 < skippedExtra c.1 p ∧
      c.1.length < p + snapshotHeaderFixed + skippedExtra c.1 p) := by omega
  rw [if_neg hin] at hb₂ hrun₂
  obtain ⟨b₃, hb₃, hrun₃⟩ := readString_some S hb₂ (n := idSize c.1 p) (by omega)
  obtain ⟨b₄, hb₄, hrun₄⟩ := readString_some S hb₃ (n := nameSize c.1 p) (by omega)
  rw [← hend] at hb₄
  obtain ⟨b₅, hb₅, hrun₅⟩ := skip_guarded S hb₄
    ((8 - recordSize c.1 p (skippedExtra c.1 p) % 8) % 8)
  have hnext : recordEnd c.1 p + (8 - recordSize c.1 p (skippedExtra c.1 p) % 8) % 8 =
      nextRecord c.1 p := by
    rw [recordEnd, nextRecord, Nat.add_assoc, add_pad]
  refine ⟨b₅, _, hb₅, ?_, ?_⟩
  · rw [hnext]
    split
    · rename_i h
      exact .inr ⟨rfl, h.2⟩
    · exact .inl rfl
  · simp only [readSnapshot, EStateM.run_bind, hrun₁, hextra, hid, hname, hrun₂, hrun₃, hrun₄]
    rw [recordSize] at hrun₅
    simp only [hrun₅, EStateM.run_pure, recordAt, beU32,
      fixed_fields (n := 4) hfixed (show 16 + 4 ≤ snapshotHeaderFixed by decide),
      fixed_fields (n := 4) hfixed (show 20 + 4 ≤ snapshotHeaderFixed by decide),
      fixed_fields (n := 4) hfixed (show 32 + 4 ≤ snapshotHeaderFixed by decide)]

theorem readSnapshots_run (S : ServesFile c cursor) (n : Nat) (hb : cursor b p) :
    ∃ b', (readSnapshots n).run b = .ok (recordsFrom c.1 n p) b' := by
  induction n generalizing p b with
  | zero => exact ⟨b, rfl⟩
  | succ n ih =>
    by_cases hlt : c.1.length < recordEnd c.1 p
    · obtain ⟨b₁, hrun⟩ := readSnapshot_none S hb hlt
      refine ⟨b₁, ?_⟩
      rw [recordsFrom_of_lt hlt]
      simp only [readSnapshots, EStateM.run_bind, hrun]
      rfl
    · obtain ⟨b₁, q, hb₁, hq, hrun⟩ := readSnapshot_some S hb (by omega)
      obtain ⟨b₂, hrest⟩ := ih hb₁
      have hsame : recordsFrom c.1 n q = recordsFrom c.1 n (nextRecord c.1 p) := by
        rcases hq with rfl | ⟨rfl, hpad⟩
        · rfl
        · -- less than eight bytes are left: no record starts here nor behind the padding
          have hgap : nextRecord c.1 p < recordEnd c.1 p + snapshotHeaderFixed := by
            rw [nextRecord, recordEnd, snapshotHeaderFixed, roundUp8]
            omega
          have hhere := fixed_le_recordEnd c.1 (recordEnd c.1 p)
          have hnext := fixed_le_recordEnd c.1 (nextRecord c.1 p)
          rw [recordsFrom_of_lt (by omega), recordsFrom_of_lt (by omega)]
      refine ⟨b₂, ?_⟩
      rw [recordsFrom, if_neg hlt]
      simp only [readSnapshots, EStateM.run_bind, hrun, hrest, hsame]
      rfl

end Walk

def snapshotsIn (bytes : List UInt8) : Except Qcow2Error (List Qcow2Snapshot) :=
  if bytes.length < minHeaderSize then .error .fileTooSmall
  else if beAt bytes 0 4 ≠ magic then .error .badMagic
  else if beAt bytes 60 4 = 0 ∨ beAt bytes 64 8 = 0 then .ok []
  else if 2 ^ 63 ≤ beAt bytes 64 8 then .error (.io invalidSeek)
  else .ok (recordsFrom bytes (min (beAt bytes 60 4) maxSnapshots) (beAt bytes 64 8))

theorem snapshots_run {β : Type} [FileSource β] {c : Content} {cursor : β → Nat → Prop} {b b' : β}
    {m : Nat} (S : ServesFile c cursor) (hread : (ReadSeek.read 104).run b = .ok (slice c.1 0 m) b')
    (hb' : cursor b' (slice c.1 0 m).length) :
    snapshots b = if (slice c.1 0 m).length < minHeaderSize then .error .fileTooSmall
      else snapshotsIn c.1 := by
  have hwindow := length_slice c.1 0 m
  have hio : (io (ReadSeek.read 104)).run b = .ok (slice c.1 0 m) b' :=
    run_io (o := .ok (slice c.1 0 m)) hread
  by_cases hshort : (slice c.1 0 m).length < minHeaderSize
  · rw [if_pos hshort]
    unfold snapshots snapshotsOf
    simp only [EStateM.run_bind, hio, if_pos hshort]
    rfl
  · have hmin : minHeaderSize = 72 := rfl
    have hm : 72 ≤ m := by omega
    have hlen : 72 ≤ c.1.length := by omega
    rw [if_neg hshort, snapshotsIn, if_neg (by omega)]
    split_ifs with hbad hnone hfar
    · have hbad' : beU32 (slice c.1 0 m) 0 ≠ magic := by
        rwa [beU32, beUint_header hm hlen (by omega)]
      unfold snapshots snapshotsOf
      simp only [EStateM.run_bind, hio, if_neg hshort, if_pos hbad']
      rfl
    · rw [snapshots_header hread hm hlen (not_not.mp hbad), if_pos hnone]
    · obtain ⟨f, -, hseek⟩ := S.seek_far (beAt c.1 64 8) hb' (by simpa using hfar)
      have hseek' : (io (ReadSeek.seek (.start (beAt c.1 64 8)))).run b' =
          .error (.io invalidSeek) f :=
        run_io (o := .error invalidSeek) hseek
      rw [snapshots_header hread hm hlen (not_not.mp hbad), if_neg hnone, EStateM.run_bind, hseek']
      rfl
    · obtain ⟨f, hf, hseek⟩ := seek_table S hb' (show beAt c.1 64 8 < 2 ^ 63 by omega)
        (min (beAt c.1 60 4) maxSnapshots)
      obtain ⟨f', hrest⟩ := readSnapshots_run S (min (beAt c.1 60 4) maxSnapshots) hf
      rw [snapshots_header hread hm hlen (not_not.mp hbad), if_neg hnone, hseek, hrest]
      rfl

theorem snapshots_eq (c : Content) : snapshots (File.opened c) = snapshotsIn c.1 := by
  have hwindow := length_slice c.1 0 104
  have hfile := c.2
  have hmin : minHeaderSize = 72 := rfl
  rw [snapshots_run (servesFile_file c) (File.read_opened c 104) ⟨rfl, rfl, by omega⟩]
  split_ifs with hshort
  · rw [snapshotsIn, if_pos (by omega)]
  · rfl

theorem recordsFrom_of_snapshots {c : Content} {l : List Qcow2Snapshot}
    (h : snapshots (File.opened c) = .ok l) :
    72 ≤ c.1.length ∧ beAt c.1 0 4 = magic ∧
      l = if beAt c.1 64 8 = 0 then []
        else recordsFrom c.1 (min (beAt c.1 60 4) maxSnapshots) (beAt c.1 64 8) := by
  rw [snapshots_eq, snapshotsIn] at h
  split_ifs at h with hshort hmagic hnone hfar
  · have hlist : [] = l := Except.ok.inj h
    refine ⟨not_lt.mp hshort, not_not.mp hmagic, ?_⟩
    rcases hnone with hcount | hoff
    · rw [hcount, Nat.zero_min, recordsFrom, ite_self, hlist]
    · rw [if_pos hoff, hlist]
  · have hlist : recordsFrom c.1 _ _ = l := Except.ok.inj h
    refine ⟨not_lt.mp hshort, not_not.mp hmagic, ?_⟩
    rw [if_neg (fun hoff => hnone (.inr hoff)), hlist]

end Qcow2
