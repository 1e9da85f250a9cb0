import Qcow2.StdIo.Program

/-! Seekable byte sources: the `Read` and `Seek` traits, the loops that fill a
buffer from them, and the law of a source that serves a fixed byte string. -/

namespace StdIo

inductive ErrorKind where
  | unexpectedEof
  | invalidInput
  | invalidData
  | interrupted
  | other
  deriving DecidableEq

structure IoError where
  kind : ErrorKind
  message : String
  deriving DecidableEq

def shortRead : IoError := ⟨.unexpectedEof, "failed to fill whole buffer"⟩

/-- `EINVAL`: a seek the source cannot represent. -/
def invalidSeek : IoError := ⟨.invalidInput, "Invalid argument"⟩

inductive SeekFrom where
  | start (n : Nat)
  | current (n : Int)
  | fromEnd (n : Int)
  deriving DecidableEq

/-- `Read + Seek`. `read n` hands back the bytes it put at the front of a buffer
of length `n`. -/
class ReadSeek (β : Type) where
  read : Nat → EStateM IoError β (List UInt8)
  seek : SeekFrom → EStateM IoError β Nat

section Loops

variable {β : Type} [ReadSeek β]

/-- Read until `want` bytes are there or the source returns none. Every pass
takes at least one byte, so `want` passes are enough. -/
def fillLoop : Nat → Nat → EStateM IoError β (List UInt8)
  | 0, _ => pure []
  | fuel + 1, want => do
    if want = 0 then
      return []
    let bs ← ReadSeek.read want
    if bs = [] then
      return []
    let rest ← fillLoop fuel (want - bs.length)
    return bs ++ rest

def fill (want : Nat) : EStateM IoError β (List UInt8) := fillLoop want want

/-- `read_exact`, over a source whose reads are not interrupted: those it would try again. -/
def readExact (n : Nat) : EStateM IoError β (List UInt8) := do
  let bs ← fill n
  if bs.length < n then
    throw shortRead
  return bs

def readExactAt (off n : Nat) : EStateM IoError β (List UInt8) := do
  let _ ← ReadSeek.seek (.start off)
  readExact n

/-- `seek(SeekFrom::Start(off))` and then a fill that stops at the end. -/
def fillAt (off n : Nat) : EStateM IoError β (List UInt8) := do
  let _ ← ReadSeek.seek (.start off)
  fill n

end Loops

/-- The content behind a source and the offsets it can seek to. Every offset in
the content, and every one below `2 ^ 63`, can be reached. -/
structure Medium where
  bytes : List UInt8
  seekable : Nat → Bool
  seekable_of_lt : ∀ n, n < max bytes.length (2 ^ 63) → seekable n = true

namespace Medium

variable (M : Medium)

def readExactAt (off n : Nat) : Except IoError (List UInt8) :=
  if M.seekable off = false then .error invalidSeek
  else if (slice M.bytes off n).length < n then .error shortRead
  else .ok (slice M.bytes off n)

theorem readExactAt_eq_ok_iff {off n : Nat} {bs : List UInt8} (hn : 0 < n) :
    M.readExactAt off n = .ok bs ↔ off + n ≤ M.bytes.length ∧ slice M.bytes off n = bs := by
  have hlen := length_slice M.bytes off n
  have hseek := M.seekable_of_lt off
  unfold readExactAt
  constructor
  · intro h
    split at h
    · cases h
    · split at h
      · cases h
      · exact ⟨by omega, by simpa using h⟩
  · intro h
    rcases h with ⟨hle, rfl⟩
    rw [if_neg (by rw [hseek (by omega)]; simp), if_neg (by omega)]

theorem readExactAt_of_isPrefix {M M' : Medium} {off n : Nat} {bs : List UInt8}
    (h : M'.bytes <+: M.bytes) (hn : 0 < n) (hr : M'.readExactAt off n = .ok bs) :
    M.readExactAt off n = .ok bs := by
  obtain ⟨hle, rfl⟩ := (M'.readExactAt_eq_ok_iff hn).mp hr
  exact (M.readExactAt_eq_ok_iff hn).mpr ⟨hle.trans h.length_le, (slice_of_isPrefix h hle).symm⟩

theorem readExactAt_toOption (off : Nat) {n : Nat} (hn : 0 < n) :
    (M.readExactAt off n).toOption =
      if M.bytes.length < off + n then none else some (slice M.bytes off n) := by
  by_cases h : off + n ≤ M.bytes.length
  · rw [(M.readExactAt_eq_ok_iff hn).mpr ⟨h, rfl⟩, if_neg (by omega)]
    rfl
  · cases hr : M.readExactAt off n with
    | error e => rw [if_pos (by omega)]; rfl
    | ok bs => exact absurd ((M.readExactAt_eq_ok_iff hn).mp hr).1 h

theorem readExactAt_error_iff (off n : Nat) : (∃ e, M.readExactAt off n = .error e) ↔
    M.seekable off = false ∨ (slice M.bytes off n).length < n := by
  unfold readExactAt
  by_cases hs : M.seekable off = false
  · simp [hs]
  · by_cases hl : (slice M.bytes off n).length < n
    · simp [hs, hl]
    · simp [hs, hl]

theorem readExactAt_isOk_iff {off n : Nat} (hn : 0 < n) :
    (∃ bs, M.readExactAt off n = .ok bs) ↔ off + n ≤ M.bytes.length := by
  simp [M.readExactAt_eq_ok_iff hn]

end Medium

/-- `cursor b p`: the source `b` serves the medium and stands at `p`. A read
returns any non-empty part of what was asked for, and nothing only at the end. -/
structure Serves {β : Type} [ReadSeek β] (M : Medium) (cursor : β → Nat → Prop) : Prop where
  seek_ok : ∀ {b p} (n : Nat), cursor b p → M.seekable n = true →
    ∃ b', cursor b' n ∧ (ReadSeek.seek (.start n)).run b = .ok n b'
  seek_far : ∀ {b p} (n : Nat), cursor b p → M.seekable n = false →
    ∃ b', cursor b' p ∧ (ReadSeek.seek (.start n)).run b = .error invalidSeek b'
  tell : ∀ {b p}, cursor b p →
    ∃ b', cursor b' p ∧ (ReadSeek.seek (.current 0)).run b = .ok p b'
  read : ∀ {b p} (n : Nat), cursor b p →
    ∃ bs b', cursor b' (p + bs.length) ∧ (ReadSeek.read n).run b = .ok bs b' ∧
      bs <+: slice M.bytes p n ∧ (bs = [] → slice M.bytes p n = [])

/-- A source whose reads depend on its position alone: `got p n` is what `n` bytes at
`p` come to. -/
structure ServesSteadily {β : Type} [ReadSeek β] (M : Medium) (cursor : β → Nat → Prop)
    (got : Nat → Nat → List UInt8) : Prop extends Serves M cursor where
  read_got : ∀ {b p} (n : Nat), cursor b p → ∃ b', (ReadSeek.read n).run b = .ok (got p n) b'

namespace Serves

variable {β : Type} [ReadSeek β] {M : Medium} {cursor : β → Nat → Prop}

theorem fillLoop (S : Serves M cursor) {fuel want p : Nat} {b : β} (hb : cursor b p)
    (hf : want ≤ fuel) :
    ∃ b', cursor b' (p + (slice M.bytes p want).length) ∧
      (StdIo.fillLoop fuel want).run b = .ok (slice M.bytes p want) b' := by
  induction fuel generalizing want p b with
  | zero =>
    obtain rfl : want = 0 := by omega
    exact ⟨b, by simpa using hb, by simp [StdIo.fillLoop]⟩
  | succ fuel ih =>
    by_cases hw : want = 0
    · subst hw
      exact ⟨b, by simpa using hb, by simp [StdIo.fillLoop]⟩
    · obtain ⟨bs, b₁, hb₁, hrun, hpre, hnil⟩ := S.read want hb
      by_cases hbs : bs = []
      · have hs := hnil hbs
        refine ⟨b₁, by simpa [hbs, hs] using hb₁, ?_⟩
        simp [StdIo.fillLoop, hw, hrun, hbs, hs]
      · have hpos : 0 < bs.length := List.length_pos_iff.mpr hbs
        obtain ⟨b₂, hb₂, hrest⟩ := ih hb₁ (show want - bs.length ≤ fuel by omega)
        have happ := slice_eq_append_of_isPrefix hpre
        refine ⟨b₂, ?_, ?_⟩
        · rw [happ, List.length_append, ← Nat.add_assoc]
          exact hb₂
        · rw [happ]
          simp [StdIo.fillLoop, hw, hrun, hbs, hrest]

/-- However the source chunks its bytes, a fill delivers the whole window. -/
theorem fill (S : Serves M cursor) {b : β} {p : Nat} (n : Nat) (hb : cursor b p) :
    ∃ b', cursor b' (p + (slice M.bytes p n).length) ∧
      (StdIo.fill n).run b = .ok (slice M.bytes p n) b' :=
  S.fillLoop hb le_rfl

theorem readExact (S : Serves M cursor) {b : β} {p : Nat} (n : Nat) (hb : cursor b p) :
    ∃ b', cursor b' (p + (slice M.bytes p n).length) ∧ (StdIo.readExact n).run b =
      withState (if (slice M.bytes p n).length < n then .error shortRead
        else .ok (slice M.bytes p n)) b' := by
  obtain ⟨b', hb', hrun⟩ := S.fill n hb
  refine ⟨b', hb', ?_⟩
  by_cases hlt : (slice M.bytes p n).length < n <;> simp [StdIo.readExact, hrun, hlt]

def Standing (cursor : β → Nat → Prop) (b : β) : Prop := ∃ p, cursor b p

theorem readExactAt (S : Serves M cursor) (off n : Nat) :
    Computes (Standing cursor) (StdIo.readExactAt off n) (M.readExactAt off n) := by
  intro b hb
  rcases hb with ⟨p, hb⟩
  cases hs : M.seekable off with
  | false =>
    obtain ⟨b', hb', hrun⟩ := S.seek_far off hb hs
    exact ⟨b', ⟨p, hb'⟩, by simp [StdIo.readExactAt, Medium.readExactAt, hs, hrun]⟩
  | true =>
    obtain ⟨b₁, hb₁, hrun₁⟩ := S.seek_ok off hb hs
    obtain ⟨b₂, hb₂, hrun₂⟩ := S.fill n hb₁
    refine ⟨b₂, ⟨_, hb₂⟩, ?_⟩
    by_cases hlt : (slice M.bytes off n).length < n <;>
      simp [StdIo.readExactAt, StdIo.readExact, Medium.readExactAt, hs, hrun₁, hrun₂, hlt]

theorem fillAt (S : Serves M cursor) {off : Nat} (n : Nat) (hoff : M.seekable off = true) :
    Computes (Standing cursor) (StdIo.fillAt off n) (.ok (slice M.bytes off n)) := by
  intro b hb
  rcases hb with ⟨p, hb⟩
  obtain ⟨b₁, hb₁, hrun₁⟩ := S.seek_ok off hb hoff
  obtain ⟨b₂, hb₂, hrun₂⟩ := S.fill n hb₁
  exact ⟨b₂, ⟨_, hb₂⟩, by simp [StdIo.fillAt, hrun₁, hrun₂]⟩

end Serves

end StdIo
