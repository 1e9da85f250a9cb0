import Qcow2.Audit
import Qcow2.SnapshotRefines

/-! The decoders of one header side by side: the strict one, the lenient one, the
snapshot probe and the refcount report. -/

namespace Qcow2

open StdIo

/-- What the strict decoder asks of the 72 bytes both versions share. -/
structure PlainHeader (data : List UInt8) : Prop where
  long : 72 ≤ data.length
  magic_eq : beAt data 0 4 = magic
  version : beAt data 4 4 = 2 ∨ beAt data 4 4 = 3
  noBacking : beAt data 8 8 = 0
  clusterBits : 9 ≤ beAt data 20 4 ∧ beAt data 20 4 ≤ 20
  noCrypt : beAt data 32 4 = 0

def TestedBitsClear (features : Nat) : Prop :=
  features.testBit 2 = false ∧ features.testBit 3 = false ∧ features.testBit 4 = false

theorem land_incompatUnsupported (features : Nat) :
    features &&& incompatUnsupported = 0 ↔ TestedBitsClear features := by
  have hbit : ∀ n, features &&& (1 <<< n) = 0 ↔ features.testBit n = false := by
    intro n
    rw [← Bool.not_eq_true, ← land_bit_ne_zero, not_not]
  rw [incompatUnsupported, Nat.and_or_distrib_left, Nat.and_or_distrib_left, Nat.or_eq_zero_iff,
    Nat.or_eq_zero_iff, hbit, hbit, hbit, TestedBitsClear, and_assoc]

section Windows

variable {bytes data : List UInt8} {off n w : Nat}

theorem le_length_window (h : n ≤ w) : n ≤ (slice bytes 0 w).length ↔ n ≤ bytes.length := by
  rw [length_slice]
  omega

theorem plainHeader_window (hw : 72 ≤ w) : PlainHeader (slice bytes 0 w) ↔ PlainHeader bytes := by
  have hf : ∀ {off n : Nat}, off + n ≤ 72 → beAt (slice bytes 0 w) off n = beAt bytes off n :=
    fun ho => beAt_window bytes (by omega)
  constructor
  · intro h
    have hlong := (le_length_window hw).mp h.long
    have hmagic := h.magic_eq
    have hversion := h.version
    have hbacking := h.noBacking
    have hbits := h.clusterBits
    have hcrypt := h.noCrypt
    rw [hf (by omega)] at hmagic hversion hbacking hbits hcrypt
    exact ⟨hlong, hmagic, hversion, hbacking, hbits, hcrypt⟩
  · intro h
    refine ⟨(le_length_window hw).mpr h.long, ?_, ?_, ?_, ?_, ?_⟩
    · rw [hf (by omega)]
      exact h.magic_eq
    · rw [hf (by omega)]
      exact h.version
    · rw [hf (by omega)]
      exact h.noBacking
    · rw [hf (by omega)]
      exact h.clusterBits
    · rw [hf (by omega)]
      exact h.noCrypt

end Windows

section Strict

variable {data : List UInt8}

theorem Qcow2Header.parse_fields {h : Qcow2Header} (he : parse data = .ok h) :
    h.clusterBits = beAt data 20 4 ∧ h.diskSize = beAt data 24 8 ∧ h.l1Size = beAt data 36 4 ∧
      h.l1TableOffset = beAt data 40 8 := by
  obtain ⟨hlen, -, -, -, -, -, hbits, hsize, hl1Size, hl1Off⟩ := parse_ok he
  exact ⟨hbits.trans (beUint_of_le (by omega)), hsize.trans (beUint_of_le (by omega)),
    hl1Size.trans (beUint_of_le (by omega)), hl1Off.trans (beUint_of_le (by omega))⟩

theorem Qcow2Header.parse_isOk_iff : (∃ h, parse data = .ok h) ↔ PlainHeader data ∧
    (beAt data 4 4 = 3 → 80 ≤ data.length → TestedBitsClear (beAt data 72 8)) := by
  constructor
  · intro hok
    obtain ⟨h, he⟩ := hok
    obtain ⟨hlen, hmagic, hversion, hbacking, hcrypt, hfeat, hbits, -⟩ := parse_ok he
    have hrange := h.clusterBits_range
    rw [hbits] at hrange
    rw [beU32, beUint_of_le (by omega)] at hmagic hversion hfeat hcrypt hrange
    rw [beU64, beUint_of_le (by omega)] at hbacking
    refine ⟨⟨hlen, hmagic, hversion, hbacking, hrange, hcrypt⟩, ?_⟩
    intro h3 h80
    have hclear := hfeat h3 h80
    rwa [beU64, beUint_of_le (by omega), land_incompatUnsupported] at hclear
  · intro hok
    obtain ⟨⟨hlen, hmagic, hversion, hbacking, hbits, hcrypt⟩, hfeat⟩ := hok
    have hfeat' : ¬ (beAt data 4 4 = 3 ∧ 80 ≤ data.length ∧
        beU64 data 72 &&& incompatUnsupported ≠ 0) := by
      intro hbad
      obtain ⟨h3, h80, hne⟩ := hbad
      rw [beU64, beUint_of_le (by omega), ne_eq, land_incompatUnsupported] at hne
      exact hne (hfeat h3 h80)
    have h0 : beU32 data 0 = magic := (beUint_of_le (by omega)).trans hmagic
    have h4 : beU32 data 4 = beAt data 4 4 := beUint_of_le (by omega)
    have h8 : beU64 data 8 = 0 := (beUint_of_le (by omega)).trans hbacking
    have h20 : beU32 data 20 = beAt data 20 4 := beUint_of_le (by omega)
    have h32 : beU32 data 32 = 0 := (beUint_of_le (by omega)).trans hcrypt
    unfold parse
    simp only [h0, h4, h8, h20, h32]
    rw [minHeaderSize, if_neg (by omega), if_neg (not_not.mpr rfl), if_neg (by omega),
      if_neg (not_not.mpr rfl), dif_pos hbits, if_neg (not_not.mpr rfl), if_neg hfeat']
    exact ⟨_, rfl⟩

/-- The headers the format lets this reader open. -/
def Decodable (data : List UInt8) : Prop :=
  PlainHeader data ∧ (beAt data 4 4 = 3 →
    80 ≤ data.length ∧ ∀ b, (beAt data 72 8).testBit b = true → b ≤ 1)

/-- A version-3 header without its incompatible features, or with some behind the
three that are tested. -/
def FeaturesUnchecked (data : List UInt8) : Prop :=
  beAt data 4 4 = 3 ∧ (data.length < 80 ∨
    TestedBitsClear (beAt data 72 8) ∧ ∃ b, 5 ≤ b ∧ (beAt data 72 8).testBit b = true)

theorem testedBits_iff (hunchecked : ¬ FeaturesUnchecked data) :
    (beAt data 4 4 = 3 → 80 ≤ data.length → TestedBitsClear (beAt data 72 8)) ↔
      (beAt data 4 4 = 3 → 80 ≤ data.length ∧ ∀ b, (beAt data 72 8).testBit b = true → b ≤ 1) := by
  constructor
  · intro htested h3
    have h80 : 80 ≤ data.length := by
      by_contra hshort
      exact hunchecked ⟨h3, .inl (by omega)⟩
    obtain ⟨h2, h3', h4⟩ := htested h3 h80
    refine ⟨h80, ?_⟩
    intro b hb
    by_contra hgt
    by_cases hlow : b < 5
    · obtain rfl | rfl | rfl : b = 2 ∨ b = 3 ∨ b = 4 := by omega
      · rw [h2] at hb
        cases hb
      · rw [h3'] at hb
        cases hb
      · rw [h4] at hb
        cases hb
    · exact hunchecked ⟨h3, .inr ⟨⟨h2, h3', h4⟩, b, by omega, hb⟩⟩
  · intro hknown h3 _
    have hclear : ∀ b, 2 ≤ b → (beAt data 72 8).testBit b = false := by
      intro b hb
      by_contra hset
      have hle := (hknown h3).2 b (by simpa using hset)
      omega
    exact ⟨hclear 2 (by omega), hclear 3 (by omega), hclear 4 (by omega)⟩

/-- The strict decoder accepts exactly what it can decode unless the incompatible
features of an otherwise plain header escape its test. -/
theorem strict_accepts_decodable_iff (data : List UInt8) :
    (((∃ h, Qcow2Header.parse data = .ok h) ↔ Decodable data) ∧
      ∀ h, Qcow2Header.parse data = .ok h → h.clusterBits = beAt data 20 4 ∧
        h.diskSize = beAt data 24 8 ∧ h.l1Size = beAt data 36 4 ∧
          h.l1TableOffset = beAt data 40 8) ↔
      ¬ (PlainHeader data ∧ FeaturesUnchecked data) := by
  have hfields : ∀ h, Qcow2Header.parse data = .ok h → h.clusterBits = beAt data 20 4 ∧
      h.diskSize = beAt data 24 8 ∧ h.l1Size = beAt data 36 4 ∧ h.l1TableOffset = beAt data 40 8 :=
    fun _ he => Qcow2Header.parse_fields he
  rw [and_iff_left hfields, Qcow2Header.parse_isOk_iff, Decodable]
  constructor
  · intro hiff hbad
    obtain ⟨hplain, h3, hshort | ⟨hclear, b, hb, hset⟩⟩ := hbad
    · have hlong := (hiff.mp ⟨hplain, fun _ h80 => absurd h80 (by omega)⟩).2 h3
      omega
    · have hle := ((hiff.mp ⟨hplain, fun _ _ => hclear⟩).2 h3).2 b hset
      omega
  · intro hgood
    apply and_congr_right
    intro hplain
    exact testedBits_iff fun hunchecked => hgood ⟨hplain, hunchecked⟩

/-- A header with feature bit 5, which the format does not define. -/
def unknownFeatureHeader : List UInt8 := headerBytes 3 9 512 0 0 0 0 ++ headerTail (1 <<< 5) 4

theorem unknown_feature_accepted :
    (∃ h, Qcow2Header.parse unknownFeatureHeader = .ok h) ∧ ¬ Decodable unknownFeatureHeader := by
  refine ⟨exists_ok (by decide), ?_⟩
  intro h
  have hle := (h.2 (by decide)).2 5 (by decide)
  omega

end Strict

section Lenient

variable {bytes : List UInt8} {i : Qcow2Info}

theorem Qcow2Info.parse_isOk_iff : (∃ i, parse (slice bytes 0 8192) = .ok i) ↔
    72 ≤ bytes.length ∧ beAt bytes 0 4 = magic ∧ 1 ≤ beAt bytes 4 4 ∧ beAt bytes 4 4 ≤ 3 := by
  have hwindow := length_slice bytes 0 8192
  constructor
  · intro hok
    obtain ⟨i, he⟩ := hok
    obtain ⟨hlen, hmagic, hone, hthree⟩ := parse_ok he
    rw [beU32, beUint_header (by omega) (by omega) (by omega)] at hmagic hone hthree
    exact ⟨by omega, hmagic, hone, hthree⟩
  · intro hok
    obtain ⟨hlen, hmagic, hone, hthree⟩ := hok
    have h4 : beU32 (slice bytes 0 8192) 4 = beAt bytes 4 4 :=
      beUint_header (by omega) hlen (by omega)
    have h0 : beU32 (slice bytes 0 8192) 0 = magic :=
      (beUint_header (by omega) hlen (by omega)).trans hmagic
    unfold parse
    simp only [h4, h0]
    rw [minHeaderSize, if_neg (by omega), if_neg (not_not.mpr rfl)]
    by_cases hv : beAt bytes 4 4 = 1
    · rw [if_pos hv]
      exact ⟨_, rfl⟩
    · rw [if_neg hv, if_neg (by omega)]
      exact ⟨_, rfl⟩

theorem Qcow2Info.parse_legacy (he : parse (slice bytes 0 8192) = .ok i)
    (hv : beAt bytes 4 4 = 1) : i.version = 1 ∧ i.snapshotCount = 0 := by
  have hlen := (parse_isOk_iff.mp ⟨i, he⟩).1
  have h4 : beU32 (slice bytes 0 8192) 4 = 1 := (beUint_header (by omega) hlen (by omega)).trans hv
  simp only [parse, h4] at he
  split_ifs at he
  cases he
  exact ⟨rfl, rfl⟩

theorem Qcow2Info.parse_fields (he : parse (slice bytes 0 8192) = .ok i)
    (hv : beAt bytes 4 4 ≠ 1) :
    i.version = beAt bytes 4 4 ∧ i.clusterBits = beAt bytes 20 4 ∧
      i.virtualDiskSize = beAt bytes 24 8 ∧ i.l1Size = beAt bytes 36 4 ∧
      i.hasBackingFile = decide (beAt bytes 8 8 ≠ 0) ∧ i.encryptionMethod = beAt bytes 32 4 ∧
      i.snapshotCount = beAt bytes 60 4 ∧ i.incompatibleFeatures =
        if beAt bytes 4 4 = 3 ∧ 80 ≤ bytes.length then beAt bytes 72 8 else 0 := by
  obtain ⟨hlen, hmagic, hone, hthree⟩ := parse_isOk_iff.mp ⟨i, he⟩
  have hwindow := length_slice bytes 0 8192
  have hf : ∀ {n off : Nat}, off + n ≤ 72 → beUint n (slice bytes 0 8192) off = beAt bytes off n :=
    fun ho => beUint_header (by omega) hlen ho
  have h0 : beU32 (slice bytes 0 8192) 0 = magic := (hf (by omega)).trans hmagic
  have h4 : beU32 (slice bytes 0 8192) 4 = beAt bytes 4 4 := hf (by omega)
  have h8 : beU64 (slice bytes 0 8192) 8 = beAt bytes 8 8 := hf (by omega)
  have h80 : 80 ≤ (slice bytes 0 8192).length ↔ 80 ≤ bytes.length := le_length_window (by omega)
  have h72 : (if beAt bytes 4 4 = 3 ∧ 80 ≤ bytes.length then beU64 (slice bytes 0 8192) 72 else 0) =
      if beAt bytes 4 4 = 3 ∧ 80 ≤ bytes.length then beAt bytes 72 8 else 0 := by
    split_ifs with h
    · exact (beUint_of_le (by omega)).trans (beAt_window bytes (by omega))
    · rfl
  simp only [parse, h0, h4, h8, h80, h72] at he
  rw [minHeaderSize, if_neg (by omega), if_neg (not_not.mpr rfl), if_neg hv, if_neg (by omega)] at he
  cases he
  exact ⟨rfl, hf (by omega), hf (by omega), hf (by omega), rfl, hf (by omega), hf (by omega), rfl⟩

end Lenient

/-- Header facts without anything the strict reader refuses. -/
structure Qcow2Info.Readable (i : Qcow2Info) : Prop where
  version : i.version = 2 ∨ i.version = 3
  noBacking : i.hasBackingFile = false
  noCrypt : i.encryptionMethod = 0
  clusterBits : 9 ≤ i.clusterBits ∧ i.clusterBits ≤ 20
  features : TestedBitsClear i.incompatibleFeatures

theorem readable_iff {bytes : List UInt8} :
    (∃ i, Qcow2Info.parse (slice bytes 0 8192) = .ok i ∧ i.Readable) ↔ PlainHeader bytes ∧
      (beAt bytes 4 4 = 3 → 80 ≤ bytes.length → TestedBitsClear (beAt bytes 72 8)) := by
  constructor
  · intro hok
    obtain ⟨i, he, hversion, hbacking, hcrypt, hbits, hfeat⟩ := hok
    obtain ⟨hlen, hmagic, -, -⟩ := Qcow2Info.parse_isOk_iff.mp ⟨i, he⟩
    have hv : beAt bytes 4 4 ≠ 1 := by
      intro hone
      have hlegacy := (Qcow2Info.parse_legacy he hone).1
      omega
    obtain ⟨h4, h20, -, -, h8, h32, -, h72⟩ := Qcow2Info.parse_fields he hv
    rw [h4] at hversion
    rw [h20] at hbits
    rw [h8] at hbacking
    rw [h32] at hcrypt
    refine ⟨⟨hlen, hmagic, hversion, by simpa using hbacking, hbits, hcrypt⟩, ?_⟩
    intro h3 hpresent
    rwa [h72, if_pos ⟨h3, hpresent⟩] at hfeat
  · intro hok
    obtain ⟨hplain, hfeat⟩ := hok
    have hversion := hplain.version
    obtain ⟨i, he⟩ := Qcow2Info.parse_isOk_iff.mpr
      ⟨hplain.long, hplain.magic_eq, by omega, by omega⟩
    obtain ⟨h4, h20, -, -, h8, h32, -, h72⟩ := Qcow2Info.parse_fields he (by omega)
    refine ⟨i, he, by omega, by rw [h8, hplain.noBacking]; rfl, h32.trans hplain.noCrypt,
      h20.symm ▸ hplain.clusterBits, ?_⟩
    rw [h72]
    split_ifs with hpresent
    · exact hfeat hpresent.1 hpresent.2
    · simp [TestedBitsClear]

theorem refcountReport_error_io {c : Content} {h : RefcountHeader} {e : Qcow2Error}
    (hp : RefcountHeader.parse (slice c.1 0 104) = .ok h)
    (he : refcountReport (File.opened c) = .error e) : ∃ e', e = .io e' := by
  have herr := refcountReport_error_iff hp
  by_cases hout : h.refcountOrder ≤ 6 ∧ RtOutside c h
  · obtain ⟨e', he'⟩ := herr.mpr hout
    rw [he] at he'
    exact ⟨e', Except.error.inj he'⟩
  · have hin : 6 < h.refcountOrder ∨ ¬ RtOutside c h := by
      rcases not_and_or.mp hout with hbig | hin
      · exact .inl (by omega)
      · exact .inr hin
    obtain ⟨report, hr⟩ := refcountReport_ok hp hin
    rw [hr] at he
    cases he

theorem snapshots_error_io {c : Content} {e : Qcow2Error} (hlen : 72 ≤ c.1.length)
    (hmagic : beAt c.1 0 4 = magic) (he : snapshots (File.opened c) = .error e) :
    ∃ e', e = .io e' := by
  rw [snapshots_eq, snapshotsIn, minHeaderSize, if_neg (by omega), if_neg (not_not.mpr hmagic)] at he
  split_ifs at he
  exact ⟨_, (Except.error.inj he).symm⟩

theorem strict_agrees_with_lenient (c : Content) :
    ((∃ h, Qcow2Header.parse (slice c.1 0 104) = .ok h) ↔
      ∃ i, Qcow2Info.parse (slice c.1 0 8192) = .ok i ∧ i.Readable) ∧
    ∀ h i, Qcow2Header.parse (slice c.1 0 104) = .ok h →
      Qcow2Info.parse (slice c.1 0 8192) = .ok i →
      h.clusterBits = i.clusterBits ∧ h.diskSize = i.virtualDiskSize ∧ h.l1Size = i.l1Size ∧
        (∀ e, refcountReport (File.opened c) = .error e → ∃ e', e = .io e') ∧
          ∀ e, snapshots (File.opened c) = .error e → ∃ e', e = .io e' := by
  have hstrict := @Qcow2Header.parse_isOk_iff (slice c.1 0 104)
  rw [plainHeader_window (by omega), le_length_window (by omega), beAt_window _ (by omega),
    beAt_window _ (by omega)] at hstrict
  refine ⟨hstrict.trans readable_iff.symm, ?_⟩
  intro h i hh hi
  obtain ⟨hplain, -⟩ := hstrict.mp ⟨h, hh⟩
  have hversion := hplain.version
  obtain ⟨-, -, -, hbits, hsize, hl1, -⟩ := Qcow2Header.parse_window hh
  obtain ⟨-, hbits', hsize', hl1', -⟩ := Qcow2Info.parse_fields hi (by omega)
  obtain ⟨r, hr⟩ := (RefcountHeader.parse_isOk_iff hplain.long hplain.magic_eq).mpr
    ⟨by omega, hplain.clusterBits⟩
  exact ⟨hbits.trans hbits'.symm, hsize.trans hsize'.symm, hl1.trans hl1'.symm,
    fun e he => refcountReport_error_io hr he,
    fun e he => snapshots_error_io hplain.long hplain.magic_eq he⟩

/-- Of what the probe enumerates the inspector reports as much for versions 2 and 3,
and for version 1 where the bytes in place of the snapshot fields yield no record. -/
theorem inspector_covers_snapshots_iff {c : Content} {l : List Qcow2Snapshot}
    (h : snapshots (File.opened c) = .ok l) :
    (∃ info, inspect (File.opened c) = .ok info ∧ l.length ≤ info.snapshotCount) ↔
      (beAt c.1 4 4 = 2 ∨ beAt c.1 4 4 = 3) ∨ beAt c.1 4 4 = 1 ∧
        (beAt c.1 60 4 = 0 ∨ beAt c.1 64 8 = 0 ∨
          c.1.length < recordEnd c.1 (beAt c.1 64 8)) := by
  obtain ⟨hlen, hmagic, hlist⟩ := recordsFrom_of_snapshots h
  have hmax : maxSnapshots = 65536 := rfl
  have hnil : l = [] ↔ beAt c.1 60 4 = 0 ∨ beAt c.1 64 8 = 0 ∨
      c.1.length < recordEnd c.1 (beAt c.1 64 8) := by
    rw [hlist]
    by_cases hoff : beAt c.1 64 8 = 0
    · simp [hoff]
    · rw [if_neg hoff, recordsFrom_eq_nil_iff]
      omega
  rw [inspect_opened]
  constructor
  · intro hcovered
    obtain ⟨info, hinfo, hle⟩ := hcovered
    obtain ⟨-, -, hone, hthree⟩ := Qcow2Info.parse_isOk_iff.mp ⟨info, hinfo⟩
    by_cases hv : beAt c.1 4 4 = 1
    · rw [(Qcow2Info.parse_legacy hinfo hv).2, Nat.le_zero, List.length_eq_zero_iff] at hle
      exact .inr ⟨hv, hnil.mp hle⟩
    · exact .inl (by omega)
  · intro hcond
    obtain ⟨info, hinfo⟩ := Qcow2Info.parse_isOk_iff.mpr ⟨hlen, hmagic, by omega, by omega⟩
    refine ⟨info, hinfo, ?_⟩
    rcases hcond with hversion | ⟨-, hnone⟩
    · obtain ⟨-, -, -, -, -, -, hcount, -⟩ := Qcow2Info.parse_fields hinfo (by omega)
      rw [hcount, hlist]
      split_ifs
      · exact Nat.zero_le _
      · exact (length_recordsFrom_le _ _ _).trans (Nat.min_le_left _ _)
    · rw [hnil.mpr hnone]
      exact Nat.zero_le _

theorem inspector_covers_snapshots_iff_sample : ∃ l,
    snapshots (File.opened evidenceFile) = .ok l ∧ l.map Qcow2Snapshot.name = ["alpha", "é"] ∧
      ((∃ info, inspect (File.opened evidenceFile) = .ok info ∧
          l.length ≤ info.snapshotCount) ↔
        (beAt evidenceFile.1 4 4 = 2 ∨ beAt evidenceFile.1 4 4 = 3) ∨
          beAt evidenceFile.1 4 4 = 1 ∧
            (beAt evidenceFile.1 60 4 = 0 ∨ beAt evidenceFile.1 64 8 = 0 ∨
              evidenceFile.1.length < recordEnd evidenceFile.1 (beAt evidenceFile.1 64 8))) := by
  obtain ⟨l, hl, hnames⟩ := exists_ok_map (x := snapshots (File.opened evidenceFile))
    (f := List.map Qcow2Snapshot.name) (b := ["alpha", "é"]) (by decide +kernel)
  exact ⟨l, hl, hnames, inspector_covers_snapshots_iff hl⟩

theorem legacy_snapshot_enumerated : ∃ l info,
    snapshots (File.opened (oneRecordImage 1)) = .ok l ∧
      inspect (File.opened (oneRecordImage 1)) = .ok info ∧
      info.version = 1 ∧ info.snapshotCount < l.length := by
  obtain ⟨l, hl, hone⟩ := exists_ok_map (x := snapshots (File.opened (oneRecordImage 1)))
    (f := List.length) (b := 1) (by decide +kernel)
  obtain ⟨info, hinfo⟩ := exists_ok (x := inspect (File.opened (oneRecordImage 1)))
    (by decide +kernel)
  have hlegacy := Qcow2Info.parse_legacy ((inspect_opened _).symm.trans hinfo) (by decide)
  exact ⟨l, info, hl, hinfo, hlegacy.1, by omega⟩

end Qcow2
