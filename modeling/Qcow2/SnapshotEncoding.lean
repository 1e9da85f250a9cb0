import Qcow2.SnapshotRefines

/-! The snapshot table as an encoder writes it, and that the enumeration undoes it. -/

namespace Qcow2

open StdIo

structure SnapshotRecord where
  l1TableOffset : UInt64
  l1Size : UInt32
  dateSec : UInt32
  dateNsec : UInt32
  vmClockNsec : UInt64
  vmStateSize : UInt32
  extraData : List UInt8
  id : String
  name : String
  extraData_le : extraData.length ≤ 65536
  id_le : (utf8Bytes id).length ≤ 65535
  name_le : (utf8Bytes name).length ≤ 65535

namespace SnapshotRecord

variable (r : SnapshotRecord)

def fields : List (Nat × Nat) :=
  [(8, r.l1TableOffset.toNat), (4, r.l1Size.toNat), (2, (utf8Bytes r.id).length),
    (2, (utf8Bytes r.name).length), (4, r.dateSec.toNat), (4, r.dateNsec.toNat),
    (8, r.vmClockNsec.toNat), (4, r.vmStateSize.toNat), (4, r.extraData.length)]

def body : List UInt8 := beFields r.fields ++ r.extraData ++ utf8Bytes r.id ++ utf8Bytes r.name

def pad : Nat := (8 - r.body.length % 8) % 8

def encode : List UInt8 := r.body ++ List.replicate r.pad 0

def decoded : Qcow2Snapshot where
  id := r.id
  name := r.name
  dateUnixSecs := r.dateSec.toNat
  dateNsecs := r.dateNsec.toNat
  vmStateSize := r.vmStateSize.toNat

end SnapshotRecord

def encodeTable (rs : List SnapshotRecord) : List UInt8 := rs.flatMap SnapshotRecord.encode

/-- The table with anything behind it, or with the file's end in the last padding. -/
def StoredAt (bytes : List UInt8) (off : Nat) (rs : List SnapshotRecord) : Prop :=
  encodeTable rs <+: bytes.drop off ∨
    ∃ init last k, rs = init ++ [last] ∧ k ≤ last.pad ∧
      bytes.drop off = encodeTable init ++ (last.body ++ List.replicate k 0)

/-- The bodies follow each other, each at the end of the padded record before. -/
def BodiesAt (bytes : List UInt8) : Nat → List SnapshotRecord → Prop
  | _, [] => True
  | p, r :: rs => r.body <+: bytes.drop p ∧ BodiesAt bytes (p + r.encode.length) rs

section Decode

variable {bytes : List UInt8} {p : Nat} {r : SnapshotRecord}

theorem length_fields (r : SnapshotRecord) : (beFields r.fields).length = snapshotHeaderFixed := by
  rw [length_beFields]
  rfl

theorem length_body (r : SnapshotRecord) : r.body.length = snapshotHeaderFixed +
    r.extraData.length + (utf8Bytes r.id).length + (utf8Bytes r.name).length := by
  simp only [SnapshotRecord.body, List.length_append, length_fields]

theorem length_encode (r : SnapshotRecord) : r.encode.length = roundUp8 r.body.length := by
  rw [SnapshotRecord.encode, List.length_append, List.length_replicate, SnapshotRecord.pad, add_pad]

theorem beAt_field (h : r.body <+: bytes.drop p) (pre : List (Nat × Nat)) {n x : Nat}
    (post : List (Nat × Nat)) (hfields : r.fields = pre ++ (n, x) :: post) (hx : x < 256 ^ n) :
    beAt bytes (p + (pre.map Prod.fst).sum) n = x := by
  have hbody : beFields r.fields <+: bytes.drop p := by
    refine List.IsPrefix.trans ?_ h
    simp only [SnapshotRecord.body, List.append_assoc]
    exact List.prefix_append _ _
  rw [← beAt_drop, ← beAt_of_isPrefix hbody, hfields, beAt_beFields hx]
  rw [hfields, length_beFields, List.map_append, List.sum_append, List.map_cons, List.sum_cons]
  omega

theorem slice_body (h : r.body <+: bytes.drop p) {a b c : List UInt8} (hbody : r.body = a ++ b ++ c) :
    slice bytes (p + a.length) b.length = b := by
  have hdrop : slice bytes (p + a.length) b.length = slice (bytes.drop p) a.length b.length := by
    rw [slice, slice, List.drop_drop]
  rw [hdrop, ← slice_of_isPrefix h (by simp [hbody]), hbody, List.append_assoc,
    slice_append_right _ _ le_rfl, Nat.sub_self, slice_length_append]

theorem skippedExtra_body (h : r.body <+: bytes.drop p) :
    skippedExtra bytes p = r.extraData.length := by
  have hmax : maxExtraData = 65536 := rfl
  have hle := r.extraData_le
  have hsize : extraDataSize bytes p = r.extraData.length :=
    beAt_field h (r.fields.take 8) [] rfl (by omega)
  rw [skippedExtra, hsize, hmax, Nat.min_eq_left hle]

theorem idSize_body (h : r.body <+: bytes.drop p) : idSize bytes p = (utf8Bytes r.id).length :=
  beAt_field h (r.fields.take 2) (r.fields.drop 3) rfl (by have := r.id_le; omega)

theorem nameSize_body (h : r.body <+: bytes.drop p) :
    nameSize bytes p = (utf8Bytes r.name).length :=
  beAt_field h (r.fields.take 3) (r.fields.drop 4) rfl (by have := r.name_le; omega)

theorem recordAt_body (h : r.body <+: bytes.drop p) :
    recordAt bytes p (skippedExtra bytes p) = r.decoded := by
  have hid : slice bytes (p + snapshotHeaderFixed + r.extraData.length) (utf8Bytes r.id).length =
      utf8Bytes r.id := by
    have hslice := slice_body h (a := beFields r.fields ++ r.extraData) (b := utf8Bytes r.id)
      (c := utf8Bytes r.name) rfl
    rwa [List.length_append, length_fields, ← Nat.add_assoc] at hslice
  have hname : slice bytes (p + snapshotHeaderFixed + r.extraData.length + (utf8Bytes r.id).length)
      (utf8Bytes r.name).length = utf8Bytes r.name := by
    have hslice := slice_body h (a := beFields r.fields ++ r.extraData ++ utf8Bytes r.id)
      (b := utf8Bytes r.name) (c := []) (List.append_nil _).symm
    rwa [List.length_append, List.length_append, length_fields, ← Nat.add_assoc,
      ← Nat.add_assoc] at hslice
  have hsec : beAt bytes (p + 16) 4 = r.dateSec.toNat :=
    beAt_field h (r.fields.take 4) (r.fields.drop 5) rfl r.dateSec.toNat_lt
  have hnsec : beAt bytes (p + 20) 4 = r.dateNsec.toNat :=
    beAt_field h (r.fields.take 5) (r.fields.drop 6) rfl r.dateNsec.toNat_lt
  have hvm : beAt bytes (p + 32) 4 = r.vmStateSize.toNat :=
    beAt_field h (r.fields.take 7) (r.fields.drop 8) rfl r.vmStateSize.toNat_lt
  rw [recordAt, skippedExtra_body h, idSize_body h, nameSize_body h, hid, hname, hsec, hnsec, hvm,
    fromUtf8Lossy_utf8Bytes, fromUtf8Lossy_utf8Bytes, SnapshotRecord.decoded]

theorem recordSize_body (h : r.body <+: bytes.drop p) :
    recordSize bytes p (skippedExtra bytes p) = r.body.length := by
  rw [recordSize, skippedExtra_body h, idSize_body h, nameSize_body h, length_body]

theorem recordsFrom_bodies {rs : List SnapshotRecord} {n : Nat} (h : BodiesAt bytes p rs)
    (hn : n ≤ rs.length) : recordsFrom bytes n p = (rs.take n).map SnapshotRecord.decoded := by
  induction rs generalizing n p with
  | nil =>
    obtain rfl : n = 0 := by simpa using hn
    rfl
  | cons r rs ih =>
    cases n with
    | zero => rfl
    | succ n =>
      obtain ⟨hr, hrs⟩ := h
      have hsize := recordSize_body hr
      have hin : ¬ bytes.length < recordEnd bytes p := by
        have hle := hr.length_le
        have hpos : 0 < r.body.length := by
          rw [length_body, snapshotHeaderFixed]
          omega
        rw [List.length_drop] at hle
        rw [recordEnd, hsize]
        omega
      have hnext : nextRecord bytes p = p + r.encode.length := by
        rw [nextRecord, hsize, length_encode]
      rw [recordsFrom, if_neg hin, recordAt_body hr, hnext, ih hrs (by simpa using hn),
        List.take_succ_cons, List.map_cons]

theorem bodiesAt_append {init : List SnapshotRecord} {last : SnapshotRecord}
    (h : encodeTable init ++ last.body <+: bytes.drop p) : BodiesAt bytes p (init ++ [last]) := by
  induction init generalizing p with
  | nil => exact ⟨h, trivial⟩
  | cons r init ih =>
    rw [encodeTable, List.flatMap_cons, List.append_assoc] at h
    refine ⟨?_, ih (drop_append_of_isPrefix h)⟩
    refine List.IsPrefix.trans ?_ h
    rw [SnapshotRecord.encode, List.append_assoc]
    exact List.prefix_append _ _

theorem bodiesAt_of_storedAt {rs : List SnapshotRecord} (h : StoredAt bytes p rs) :
    BodiesAt bytes p rs := by
  rcases h with htable | ⟨init, last, k, rfl, -, htail⟩
  · rcases List.eq_nil_or_concat rs with rfl | ⟨init, last, rfl⟩
    · trivial
    · rw [List.concat_eq_append] at htable ⊢
      apply bodiesAt_append
      refine List.IsPrefix.trans ?_ htable
      rw [encodeTable, encodeTable, List.flatMap_append, List.flatMap_singleton,
        SnapshotRecord.encode, ← List.append_assoc]
      exact List.prefix_append _ _
  · apply bodiesAt_append
    rw [htail, ← List.append_assoc]
    exact List.prefix_append _ _

end Decode

/-- A file whose header points at the encoding of the records. -/
structure HoldsTable (c : Content) (rs : List SnapshotRecord) : Prop where
  header : 72 ≤ c.1.length
  magic_eq : beAt c.1 0 4 = magic
  count : beAt c.1 60 4 = rs.length
  offset : 104 ≤ beAt c.1 64 8
  stored : StoredAt c.1 (beAt c.1 64 8) rs

theorem snapshots_encoded {c : Content} {rs : List SnapshotRecord} (h : HoldsTable c rs) :
    snapshots (File.opened c) = .ok ((rs.take maxSnapshots).map SnapshotRecord.decoded) := by
  have hbodies := bodiesAt_of_storedAt h.stored
  have hoff := h.offset
  rw [snapshots_eq, snapshotsIn, minHeaderSize, if_neg (Nat.not_lt.mpr h.header),
    if_neg (not_not.mpr h.magic_eq), h.count]
  cases rs with
  | nil => rfl
  | cons r rs =>
    have hlen : 0 < r.body.length := by
      rw [length_body, snapshotHeaderFixed]
      omega
    have hle := hbodies.1.length_le
    have hfile := c.2
    rw [List.length_drop] at hle
    have hcount : min (r :: rs).length maxSnapshots ≤ (r :: rs).length := Nat.min_le_left _ _
    rw [if_neg (by simp; omega), if_neg (by omega), recordsFrom_bodies hbodies hcount,
      Nat.min_comm, ← List.take_eq_take_min]

/-- Two records, the second cut off in its padding. -/
def sampleRecords : List SnapshotRecord :=
  [{ l1TableOffset := 512, l1Size := 1, dateSec := 1700000000, dateNsec := 123, vmClockNsec := 5,
     vmStateSize := 4096, extraData := List.replicate 16 7, id := "1", name := "alpha",
     extraData_le := by decide, id_le := by decide +kernel, name_le := by decide +kernel },
   { l1TableOffset := 0, l1Size := 0, dateSec := 0, dateNsec := 0, vmClockNsec := 0,
     vmStateSize := 0, extraData := [], id := "2", name := "é",
     extraData_le := by decide, id_le := by decide +kernel, name_le := by decide +kernel }]

def sampleTableImage : Content :=
  ⟨snapshotHeader 3 2 104 ++ headerTail 0 4 ++ (encodeTable sampleRecords).take 109, by
    have htake := List.length_take_le 109 (encodeTable sampleRecords)
    simp only [List.length_append, length_snapshotHeader, length_headerTail]
    omega⟩

theorem sampleTableImage_holds : HoldsTable sampleTableImage sampleRecords where
  header := by decide +kernel
  magic_eq := by decide +kernel
  count := by decide +kernel
  offset := by decide +kernel
  stored := .inr ⟨sampleRecords.take 1, sampleRecords.get ⟨1, by decide⟩, 2, by rfl,
    by decide +kernel, by decide +kernel⟩

theorem snapshots_encoded_sample : HoldsTable sampleTableImage sampleRecords ∧
    snapshots (File.opened sampleTableImage) =
      .ok ((sampleRecords.take maxSnapshots).map SnapshotRecord.decoded) :=
  ⟨sampleTableImage_holds, snapshots_encoded sampleTableImage_holds⟩

end Qcow2
