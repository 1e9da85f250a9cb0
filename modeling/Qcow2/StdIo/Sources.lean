import Qcow2.StdIo.Backing

/-! The sources the development runs on: an in-memory cursor, a file, and a
cursor whose reads are cut short by an arbitrary schedule. -/

namespace StdIo

def Medium.memory (bytes : List UInt8) : Medium := ⟨bytes, fun _ => true, fun _ _ => rfl⟩

/-- A file's bytes. Their number is an `off_t`. -/
abbrev Content := { bytes : List UInt8 // bytes.length < 2 ^ 63 }

/-- A file's bytes behind `lseek`, which takes offsets below `2 ^ 63`. -/
def Medium.file (c : Content) : Medium :=
  ⟨c.1, fun n => n < 2 ^ 63, fun n hn => by
    have := c.2
    simp only [decide_eq_true_eq]
    omega⟩

@[simp] theorem Medium.memory_bytes (bytes : List UInt8) :
    (Medium.memory bytes).bytes = bytes := rfl

@[simp] theorem Medium.memory_seekable (bytes : List UInt8) (n : Nat) :
    (Medium.memory bytes).seekable n = true := rfl

@[simp] theorem Medium.file_bytes (c : Content) : (Medium.file c).bytes = c.1 := rfl

@[simp] theorem Medium.file_seekable (c : Content) (n : Nat) :
    (Medium.file c).seekable n = decide (n < 2 ^ 63) := rfl

/-- The offset a seek asks for from a position in a source of a length; `none`
when it lies before the start. -/
def SeekFrom.resolve (pos len : Nat) : SeekFrom → Option Nat
  | .start n => some n
  | .current d => if pos + d < 0 then none else some (pos + d).toNat
  | .fromEnd d => if len + d < 0 then none else some (len + d).toNat

@[simp] theorem SeekFrom.resolve_start (pos len n : Nat) :
    (SeekFrom.start n).resolve pos len = some n := rfl

@[simp] theorem SeekFrom.resolve_tell (pos len : Nat) :
    (SeekFrom.current 0).resolve pos len = some pos := by
  simp [SeekFrom.resolve]

structure Cursor where
  bytes : List UInt8
  pos : Nat

instance : ReadSeek Cursor where
  read n c :=
    let bs := slice c.bytes c.pos n
    .ok bs { c with pos := c.pos + bs.length }
  seek s c :=
    match s.resolve c.pos c.bytes.length with
    | some n => .ok n { c with pos := n }
    | none => .error ⟨.invalidInput, "invalid seek to a negative or overflowing position"⟩ c

structure File where
  content : Content
  pos : Nat

def File.opened (c : Content) : File := ⟨c, 0⟩

/-- A source that also knows its length, as `File::metadata` does. -/
class FileSource (β : Type) extends ReadSeek β where
  fileLen : EStateM IoError β Nat

instance : FileSource File where
  read n f :=
    let bs := slice f.content.1 f.pos n
    .ok bs { f with pos := f.pos + bs.length }
  seek s f :=
    match s.resolve f.pos f.content.1.length with
    | some n => if n < 2 ^ 63 then .ok n { f with pos := n } else .error invalidSeek f
    | none => .error invalidSeek f
  fileLen f := .ok f.content.1.length f

/-- A file whose `k`-th read returns at most `chunk k` bytes, and at least one of what is
there. -/
structure ShortFile where
  file : File
  chunk : Nat → Nat
  calls : Nat

def ShortFile.opened (c : Content) (chunk : Nat → Nat) : ShortFile := ⟨File.opened c, chunk, 0⟩

def ShortFile.onFile {α : Type} (x : EStateM IoError File α) : EStateM IoError ShortFile α :=
  zoom ShortFile.file (fun f s => { s with file := f }) x

instance : FileSource ShortFile where
  read n s :=
    let bs := (slice s.file.content.1 s.file.pos n).take (max 1 (s.chunk s.calls))
    .ok bs { s with file.pos := s.file.pos + bs.length, calls := s.calls + 1 }
  seek w := ShortFile.onFile (ReadSeek.seek w)
  fileLen := ShortFile.onFile FileSource.fileLen

/-- A cursor that returns on its `k`-th read only `chunk k` bytes, at least one
and at most what is there. -/
structure Chunked where
  bytes : List UInt8
  chunk : Nat → Nat
  calls : Nat
  pos : Nat

instance : ReadSeek Chunked where
  read n c :=
    let bs := (slice c.bytes c.pos n).take (max 1 (c.chunk c.calls))
    .ok bs { c with pos := c.pos + bs.length, calls := c.calls + 1 }
  seek s c :=
    match s.resolve c.pos c.bytes.length with
    | some n => .ok n { c with pos := n }
    | none => .error invalidSeek c

def Cursor.On (bytes : List UInt8) (c : Cursor) (p : Nat) : Prop := c.bytes = bytes ∧ c.pos = p

def File.On (content : Content) (f : File) (p : Nat) : Prop :=
  f.content = content ∧ f.pos = p ∧ p < 2 ^ 63

theorem Cursor.on_start (bytes : List UInt8) : Cursor.On bytes ⟨bytes, 0⟩ 0 := ⟨rfl, rfl⟩

theorem File.on_opened (content : Content) : File.On content (File.opened content) 0 :=
  ⟨rfl, rfl, by norm_num⟩

theorem File.read_opened (content : Content) (n : Nat) :
    (ReadSeek.read n).run (File.opened content) =
      .ok (slice content.1 0 n) ⟨content, (slice content.1 0 n).length⟩ := by
  simp [ReadSeek.read, EStateM.run, File.opened]

def Chunked.On (bytes : List UInt8) (chunk : Nat → Nat) (c : Chunked) (p : Nat) : Prop :=
  c.bytes = bytes ∧ c.chunk = chunk ∧ c.pos = p

theorem serves_cursor (bytes : List UInt8) :
    Serves (Medium.memory bytes) (Cursor.On bytes) where
  seek_ok := by
    intro c p n hc _
    rcases hc with ⟨rfl, rfl⟩
    exact ⟨{ c with pos := n }, ⟨rfl, rfl⟩, by simp [ReadSeek.seek, EStateM.run]⟩
  seek_far := by simp
  tell := by
    intro c p hc
    rcases hc with ⟨rfl, rfl⟩
    exact ⟨c, ⟨rfl, rfl⟩, by simp [ReadSeek.seek, EStateM.run]⟩
  read := by
    intro c p n hc
    rcases hc with ⟨rfl, rfl⟩
    exact ⟨slice c.bytes c.pos n, { c with pos := c.pos + (slice c.bytes c.pos n).length },
      ⟨rfl, rfl⟩, rfl, List.prefix_rfl, id⟩

theorem servesSteadily_cursor (bytes : List UInt8) :
    ServesSteadily (Medium.memory bytes) (Cursor.On bytes) (slice bytes) where
  toServes := serves_cursor bytes
  read_got := by
    intro c p n hc
    rcases hc with ⟨rfl, rfl⟩
    exact ⟨_, rfl⟩

theorem serves_file (content : Content) :
    Serves (Medium.file content) (File.On content) where
  seek_ok := by
    intro f p n hf hn
    rcases hf with ⟨rfl, rfl, hp⟩
    have hn' : n < 2 ^ 63 := by simpa using hn
    refine ⟨{ f with pos := n }, ⟨rfl, rfl, hn'⟩, ?_⟩
    simpa [ReadSeek.seek, EStateM.run] using hn'
  seek_far := by
    intro f p n hf hn
    rcases hf with ⟨rfl, rfl, hp⟩
    have hn' : ¬ n < 2 ^ 63 := by simpa using hn
    refine ⟨f, ⟨rfl, rfl, hp⟩, ?_⟩
    simpa [ReadSeek.seek, EStateM.run] using hn'
  tell := by
    intro f p hf
    rcases hf with ⟨rfl, rfl, hp⟩
    refine ⟨f, ⟨rfl, rfl, hp⟩, ?_⟩
    simpa [ReadSeek.seek, EStateM.run] using hp
  read := by
    intro f p n hf
    rcases hf with ⟨rfl, rfl, hp⟩
    refine ⟨slice f.content.1 f.pos n, { f with pos := f.pos + (slice f.content.1 f.pos n).length },
      ⟨rfl, rfl, ?_⟩, rfl, List.prefix_rfl, id⟩
    have hlen := length_slice f.content.1 f.pos n
    have hc := f.content.2
    omega

/-- A file source tells the length of its content and stays where it is. -/
structure ServesFile {β : Type} [FileSource β] (c : Content) (cursor : β → Nat → Prop) : Prop
    extends Serves (Medium.file c) cursor where
  len : ∀ {b p}, cursor b p →
    ∃ b', cursor b' p ∧ (FileSource.fileLen : EStateM IoError β Nat).run b = .ok c.1.length b'

theorem servesFile_file (content : Content) : ServesFile content (File.On content) where
  toServes := serves_file content
  len := by
    intro f p hf
    refine ⟨f, hf, ?_⟩
    rw [← hf.1]
    rfl

theorem take_max_one_eq_nil {α : Type*} {bs : List α} {n : Nat} (h : bs.take (max 1 n) = []) :
    bs = [] := by
  rcases List.take_eq_nil_iff.mp h with h | h
  · omega
  · exact h

def ShortFile.On (content : Content) (s : ShortFile) (p : Nat) : Prop := File.On content s.file p

theorem ShortFile.on_opened (content : Content) (chunk : Nat → Nat) :
    ShortFile.On content (ShortFile.opened content chunk) 0 :=
  File.on_opened content

theorem servesFile_short (content : Content) : ServesFile content (ShortFile.On content) where
  seek_ok := by
    intro s p n hs hn
    obtain ⟨f, hf, hrun⟩ := (serves_file content).seek_ok n hs hn
    exact ⟨{ s with file := f }, hf, run_zoom_ok hrun⟩
  seek_far := by
    intro s p n hs hn
    obtain ⟨f, hf, hrun⟩ := (serves_file content).seek_far n hs hn
    exact ⟨{ s with file := f }, hf, run_zoom_error hrun⟩
  tell := by
    intro s p hs
    obtain ⟨f, hf, hrun⟩ := (serves_file content).tell hs
    exact ⟨{ s with file := f }, hf, run_zoom_ok hrun⟩
  read := by
    intro s p n hs
    rcases hs with ⟨rfl, rfl, hp⟩
    let bs := (slice s.file.content.1 s.file.pos n).take (max 1 (s.chunk s.calls))
    have hpre : bs <+: slice s.file.content.1 s.file.pos n := List.take_prefix _ _
    have hle := hpre.length_le
    have hlen := length_slice s.file.content.1 s.file.pos n
    have hc := s.file.content.2
    exact ⟨bs, { s with file.pos := s.file.pos + bs.length, calls := s.calls + 1 },
      ⟨rfl, rfl, by omega⟩, rfl, hpre, take_max_one_eq_nil⟩
  len := by
    intro s p hs
    obtain ⟨f, hf, hrun⟩ := (servesFile_file content).len hs
    have hlen : (ShortFile.onFile FileSource.fileLen).run s = .ok content.1.length { s with file := f } :=
      run_zoom_ok hrun
    exact ⟨{ s with file := f }, hf, hlen⟩

theorem serves_chunked (bytes : List UInt8) (chunk : Nat → Nat) :
    Serves (Medium.memory bytes) (Chunked.On bytes chunk) where
  seek_ok := by
    intro c p n hc _
    rcases hc with ⟨rfl, rfl, rfl⟩
    exact ⟨{ c with pos := n }, ⟨rfl, rfl, rfl⟩, by simp [ReadSeek.seek, EStateM.run]⟩
  seek_far := by simp
  tell := by
    intro c p hc
    rcases hc with ⟨rfl, rfl, rfl⟩
    exact ⟨c, ⟨rfl, rfl, rfl⟩, by simp [ReadSeek.seek, EStateM.run]⟩
  read := by
    intro c p n hc
    rcases hc with ⟨rfl, rfl, rfl⟩
    let bs := (slice c.bytes c.pos n).take (max 1 (c.chunk c.calls))
    exact ⟨bs, { c with pos := c.pos + bs.length, calls := c.calls + 1 }, ⟨rfl, rfl, rfl⟩, rfl,
      List.take_prefix _ _, take_max_one_eq_nil⟩

end StdIo
