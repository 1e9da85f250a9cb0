import Qcow2.Source
import Qcow2.StdIo.Locked

/-! One `Qcow2Source` shared by any number of threads: the seek and the passes of the fill
loop as steps under its mutex, which a panicking holder poisons. -/

namespace Qcow2

open StdIo

namespace Qcow2Source

/-- What a call of `read_at` holds between two steps under the lock. -/
inductive ReadAtState where
  | seeking (offset want : Nat) (buf : List UInt8)
  | filling (want total : Nat) (buf : List UInt8)

variable {β κ : Type} [ReadSeek β]

section

variable [Target]

/-- `read_at` up to the `lock()`. -/
def enterReadAt (len : Nat) (c : ReadAtCall κ) :
    Progress ReadAtState (Except VfsError (Nat × List UInt8)) :=
  let avail := len - c.offset
  if avail = 0 then .answered (.ok (0, c.buf))
  else .going (.seeking c.offset (asUsize (min c.buf.length avail)) c.buf)

/-- `read_at` under the lock: the seek, or one pass of the loop. -/
def stepReadAt (inflate : Inflate) : ReadAtState → Qcow2Reader β →
    Progress ReadAtState (Except VfsError (Nat × List UInt8)) × Qcow2Reader β
  | .seeking offset want buf, r =>
    match (Qcow2Reader.seek (.start offset)).run r with
    | .error e r => (.answered (.error (.io "qcow2::seek" e)), r)
    | .ok _ r => (.going (.filling want 0 buf), r)
  | .filling want total buf, r =>
    if want ≤ total then (.answered (.ok (total, buf)), r)
    else match (Qcow2Reader.read inflate (slice buf total (want - total))).run r with
      | .error e r => (.answered (.error (.io "qcow2::read" e)), r)
      | .ok (n, part) r =>
        let buf := buf.take total ++ part ++ buf.drop want
        if n = 0 then (.answered (.ok (total, buf)), r)
        else (.going (.filling want (total + n) buf), r)

end

def ReadAtState.rank : ReadAtState → Nat
  | .seeking _ want _ => want + 1
  | .filling want total _ => want - total

theorem stepReadAt_rank (inflate : Inflate) {k k' : ReadAtState} {r r' : Qcow2Reader β}
    (h : stepReadAt inflate k r = (.going k', r')) : k'.rank < k.rank := by
  cases k with
  | seeking offset want buf =>
    rw [stepReadAt] at h
    split at h
    · cases h
    · cases h
      simp [ReadAtState.rank]
  | filling want total buf =>
    rw [stepReadAt] at h
    by_cases hdone : want ≤ total
    · rw [if_pos hdone] at h
      cases h
    · rw [if_neg hdone] at h
      split at h
      · cases h
      · dsimp only at h
        split_ifs at h with hzero
        · cases h
        · cases h
          simp only [ReadAtState.rank]
          omega

def readAtBody (inflate : Inflate) (len : Nat) :
    LockedBody (Qcow2Reader β) (ReadAtCall κ) ReadAtState (Except VfsError (Nat × List UInt8)) where
  enter := enterReadAt len
  step := stepReadAt inflate
  rank := ReadAtState.rank
  rank_lt := stepReadAt_rank inflate

/-- What is left of `readAt` for a call in that state. -/
def restOf (inflate : Inflate) :
    ReadAtState → EStateM VfsError (Qcow2Source β) (Nat × List UInt8)
  | .seeking offset want buf => do
    let _ ← onReader "qcow2::seek" (Qcow2Reader.seek (.start offset))
    fillBuf inflate want want 0 buf
  | .filling want total buf => fillBuf inflate want (want - total) total buf

variable (inflate : Inflate)

theorem fillBuf_fuel {want fuel fuel' total : Nat} {buf : List UInt8} (h : want - total ≤ fuel)
    (h' : want - total ≤ fuel') :
    (fillBuf inflate want fuel total buf : EStateM VfsError (Qcow2Source β) _) =
      fillBuf inflate want fuel' total buf := by
  induction fuel generalizing fuel' total buf with
  | zero =>
    cases fuel' with
    | zero => rfl
    | succ fuel' => rw [fillBuf, fillBuf, if_pos (by omega)]
  | succ fuel ih =>
    cases fuel' with
    | zero => rw [fillBuf, fillBuf, if_pos (by omega)]
    | succ fuel' =>
      rw [fillBuf, fillBuf]
      by_cases hdone : want ≤ total
      · rw [if_pos hdone, if_pos hdone]
      · rw [if_neg hdone, if_neg hdone]
        congr 1
        funext x
        dsimp only
        by_cases hzero : x.1 = 0
        · rw [if_pos hzero, if_pos hzero]
        · rw [if_neg hzero, if_neg hzero]
          exact ih (by omega) (by omega)

omit [ReadSeek β] in
theorem onReader_ok {α : Type} {op : String} {x : EStateM IoError (Qcow2Reader β) α} {len : Nat}
    {r r' : Qcow2Reader β} {a : α} (h : x.run r = .ok a r') :
    (onReader op x).run ⟨r, len⟩ = .ok a ⟨r', len⟩ :=
  @onReader_run β α op x (.ok a) ⟨r, len⟩ r' h

omit [ReadSeek β] in
theorem onReader_error {α : Type} {op : String} {x : EStateM IoError (Qcow2Reader β) α} {len : Nat}
    {r r' : Qcow2Reader β} {e : IoError} (h : x.run r = .error e r') :
    (onReader op x).run ⟨r, len⟩ = .error (.io op e) ⟨r', len⟩ :=
  @onReader_run β α op x (.error e) ⟨r, len⟩ r' h

/-- One step under the lock is one step of the program that is left. -/
theorem answer_restOf (len : Nat) (k : ReadAtState) (r : Qcow2Reader β) :
    answer (restOf inflate k) ⟨r, len⟩ = match stepReadAt inflate k r with
      | (.answered o, r') => (o, ⟨r', len⟩)
      | (.going k', r') => answer (restOf inflate k') ⟨r', len⟩ := by
  cases k with
  | seeking offset want buf =>
    cases hrun : (Qcow2Reader.seek (.start offset)).run r with
    | error e r' =>
      rw [stepReadAt, hrun, answer, restOf, EStateM.run_bind, onReader_error hrun]
    | ok n r' =>
      rw [stepReadAt, hrun, answer, restOf, EStateM.run_bind, onReader_ok hrun]
      rfl
  | filling want total buf =>
    by_cases hdone : want ≤ total
    · have hzero : want - total = 0 := by omega
      rw [stepReadAt, if_pos hdone, restOf, hzero]
      rfl
    · obtain ⟨m, hm⟩ : ∃ m, want - total = m + 1 := ⟨want - total - 1, by omega⟩
      rw [stepReadAt, if_neg hdone, restOf, hm, fillBuf, if_neg hdone, ← hm]
      cases hrun : (Qcow2Reader.read inflate (slice buf total (want - total))).run r with
      | error e r' =>
        rw [answer, EStateM.run_bind, onReader_error hrun]
      | ok x r' =>
        rw [answer, EStateM.run_bind, onReader_ok hrun]
        dsimp only
        by_cases hzero : x.1 = 0
        · rw [if_pos hzero, if_pos hzero]
          rfl
        · rw [if_neg hzero, if_neg hzero]
          rw [fillBuf_fuel inflate (show want - (total + x.1) ≤ m by omega) le_rfl]
          rfl

theorem answer_of_steps {len : Nat} {k k' : ReadAtState} {r r' : Qcow2Reader β}
    (h : (@readAtBody β κ _ inflate len).Steps k r k' r') :
    answer (restOf inflate k) ⟨r, len⟩ = answer (restOf inflate k') ⟨r', len⟩ := by
  induction h with
  | refl => rfl
  | tail head last ih =>
    have hstep : stepReadAt inflate _ _ = _ := last
    rw [ih, answer_restOf, hstep]

theorem serve_enter (len : Nat) (c : ReadAtCall κ) (r : Qcow2Reader β) :
    serve inflate c ⟨r, len⟩ = match enterReadAt len c with
      | .answered o => (o, ⟨r, len⟩)
      | .going k => answer (restOf inflate k) ⟨r, len⟩ := by
  by_cases havail : len - c.offset = 0
  · simp only [serve, enterReadAt, if_pos havail]
    simp [answer, readAt, havail]
  · simp only [serve, enterReadAt, if_neg havail]
    simp [answer, readAt, havail, restOf]

/-- The steps of one call with the reader to itself are the call of the source. -/
theorem serve_of_atomic {len : Nat} {r r' : Qcow2Reader β} {c : ReadAtCall κ}
    {o : Except VfsError (Nat × List UInt8)} (h : (readAtBody inflate len).Atomic r c o r') :
    serve inflate c ⟨r, len⟩ = (o, ⟨r', len⟩) := by
  cases h with
  | early henter =>
    have henter' : enterReadAt len c = .answered o := henter
    rw [serve_enter, henter']
  | whole henter hsteps hlast =>
    have henter' : enterReadAt len c = .going _ := henter
    have hlast' : stepReadAt inflate _ _ = (.answered o, r') := hlast
    rw [serve_enter, henter']
    dsimp only
    rw [answer_of_steps inflate hsteps, answer_restOf, hlast']

variable {θ : Type} [DecidableEq θ]

abbrev Shared (θ β κ : Type) : Type :=
  Locked θ (Qcow2Reader β) (ReadAtCall κ) ReadAtState (Except VfsError (Nat × List UInt8))

/-- Whatever the source does and however the steps of the threads interleave, the calls that
are over got what the source answers to the same calls one at a time, in the order they
ended; between calls the reader stands where that run leaves it. -/
theorem read_at_linearizable (r₀ : Qcow2Reader β) {ts : List θ} {c : Shared θ β κ}
    (h : (readAtBody inflate r₀.virtualDiskSize).Schedule (fun _ _ => False) ts (.start r₀) c) :
    c.log.map (fun e => e.2.2) =
        ((serve inflate).run (c.log.map fun e => e.2.1) (new r₀)).1.map some ∧
      (c.owner = none →
        ((serve inflate).run (c.log.map fun e => e.2.1) (new r₀)).2 =
          ⟨c.shared, r₀.virtualDiskSize⟩) := by
  have hserial := (LockedBody.Serialised.start r₀).schedule h
  obtain ⟨r, hcalls, hguards⟩ := hserial.serial
  obtain ⟨hanswers, hstate⟩ := hcalls.run_eq (fun r => (⟨r, r₀.virtualDiskSize⟩ : Qcow2Source β))
    (fun hatomic => serve_of_atomic inflate hatomic)
  refine ⟨hanswers, ?_⟩
  intro hfree
  rw [LockedBody.Guards, hfree] at hguards
  rw [hguards]
  exact hstate

/-- A thread of each of two calls: the first inside its body, the second waiting. -/
theorem exists_contended (torn : Qcow2Reader β → Qcow2Reader β → Prop) {r₀ : Qcow2Reader β}
    (hsize : r₀.virtualDiskSize = 4) :
    ∃ c : Shared Bool β Unit, (readAtBody inflate r₀.virtualDiskSize).Schedule torn
        [true, false, true] (.start r₀) c ∧ c.log = [] ∧ c.shared = r₀ ∧
      c.phase true = .inside ⟨(), 1, [9, 9]⟩ (.seeking 1 2 [9, 9]) ∧
      c.phase false = .waiting ⟨(), 3, [9, 9]⟩ (.seeking 3 1 [9, 9]) := by
  have hfirst : enterReadAt r₀.virtualDiskSize (⟨(), 1, [9, 9]⟩ : ReadAtCall Unit) =
      .going (.seeking 1 2 [9, 9]) := by
    rw [hsize]
    rfl
  have hsecond : enterReadAt r₀.virtualDiskSize (⟨(), 3, [9, 9]⟩ : ReadAtCall Unit) =
      .going (.seeking 3 1 [9, 9]) := by
    rw [hsize]
    rfl
  exact ⟨_, .cons (.call rfl hfirst) (.cons (.call rfl hsecond)
    (.cons (.lock (i := ⟨(), 1, [9, 9]⟩) (k := .seeking 1 2 [9, 9]) rfl rfl) (.nil _))),
    rfl, rfl, rfl, rfl⟩

theorem read_at_linearizable_sample : ∃ (r₀ : Qcow2Reader Cursor) (c : Shared Bool Cursor Unit),
    fromBacking (Cursor.mk sampleImage 0) = .ok r₀ ∧ c.log.map Prod.fst = [true, false] ∧
      c.log.map (fun e => e.2.2) =
        ((serve .ok).run [⟨(), 1, [9, 9]⟩, ⟨(), 3, [9, 9]⟩] (new r₀)).1.map some := by
  obtain ⟨r₀, hopen⟩ := exists_ok (x := fromBacking (Cursor.mk sampleImage 0)) (by decide)
  have hsize : r₀.virtualDiskSize = 4 := (opened_image hopen).2.2.trans (by decide)
  obtain ⟨c, hrun, hlog, -, hin, hwait⟩ := exists_contended .ok (fun _ _ => False) hsize
  obtain ⟨n, c', o, hrun', hfree, hlog', hphase⟩ :=
    LockedBody.exists_answer (readAtBody .ok r₀.virtualDiskSize) (fun _ _ => False) hin
  obtain ⟨m, c'', o', hrun'', hlog''⟩ := LockedBody.exists_answer_of_free
    (readAtBody .ok r₀.virtualDiskSize) (fun _ _ => False) hfree
      ((hphase false (by decide)).trans hwait)
  have hlogs : c''.log = [(true, ⟨(), 1, [9, 9]⟩, some o), (false, ⟨(), 3, [9, 9]⟩, some o')] := by
    rw [hlog'', hlog', hlog]
    rfl
  refine ⟨r₀, c'', hopen, by rw [hlogs]; rfl, ?_⟩
  have hanswers := (read_at_linearizable .ok r₀ (hrun.append (hrun'.append hrun''))).1
  rw [hlogs] at hanswers ⊢
  exact hanswers

/-- What a panic under the lock may leave: the fields that opening fixed, any position, and
the source standing anywhere in its content. -/
def Torn (cursor : β → Nat → Prop) (r r' : Qcow2Reader β) : Prop :=
  r'.toLayout = r.toLayout ∧ Serves.Standing cursor r'.backing

variable {M : Medium} {cursor : β → Nat → Prop} {L : Layout}

omit [ReadSeek β] in
theorem exists_at_iff {r : Qcow2Reader β} : (∃ p, Qcow2Reader.At cursor L p r) ↔
    r.toLayout = L ∧ Serves.Standing cursor r.backing := by
  constructor
  · rintro ⟨p, hlayout, -, hstanding⟩
    exact ⟨hlayout, hstanding⟩
  · intro h
    exact ⟨r.pos, h.1, rfl, h.2⟩

theorem stepReadAt_at (S : Serves M cursor) (k : ReadAtState) {r : Qcow2Reader β}
    (hr : ∃ p, Qcow2Reader.At cursor L p r) :
    ∃ p, Qcow2Reader.At cursor L p (stepReadAt inflate k r).2 := by
  obtain ⟨p, hp⟩ := hr
  cases k with
  | seeking offset want buf =>
    obtain ⟨r', hrun, hr'⟩ := Qcow2Reader.seek_run hp (.start offset)
    rw [stepReadAt, hrun]
    cases Qcow2Reader.seekOutcome L.virtualDiskSize p (.start offset) <;> exact ⟨_, hr'⟩
  | filling want total buf =>
    rw [stepReadAt]
    by_cases hdone : want ≤ total
    · rw [if_pos hdone]
      exact ⟨p, hp⟩
    · obtain ⟨o, r', hrun, -, hr'⟩ :=
        Qcow2Reader.read_run inflate S hp (slice buf total (want - total))
      rw [if_neg hdone, hrun]
      cases o with
      | error e => exact ⟨_, hr'⟩
      | ok bs =>
        dsimp only [Except.map, withState_ok]
        split <;> exact ⟨_, hr'⟩

theorem steps_at (S : Serves M cursor) {len : Nat} {k k' : ReadAtState} {r r' : Qcow2Reader β}
    (h : (@readAtBody β κ _ inflate len).Steps k r k' r')
    (hr : ∃ p, Qcow2Reader.At cursor L p r) : ∃ p, Qcow2Reader.At cursor L p r' := by
  induction h with
  | refl => exact hr
  | @tail k' k'' s s' s'' head last ih =>
    have hstep : stepReadAt inflate k' s' = (.going k'', s'') := last
    have hat := stepReadAt_at inflate S k' (ih hr)
    rwa [hstep] at hat

theorem enterReadAt_rank {len : Nat} {c : ReadAtCall κ} {k : ReadAtState}
    (h : enterReadAt len c = .going k) : k.rank ≤ c.buf.length + 1 := by
  rw [enterReadAt] at h
  split_ifs at h
  cases h
  have hle : asUsize (min c.buf.length (len - c.offset)) ≤ min c.buf.length (len - c.offset) :=
    Nat.mod_le _ _
  simp only [ReadAtState.rank]
  omega

/-- On a source that serves an image, with threads that panic under the lock wherever they
like: every call that is over got the guest bytes, every waiting call can be answered by its
own thread and the owner, a call that took the lock can be answered by its own thread alone,
and it is over after at most so many steps of its own. -/
theorem read_at_survives_panics (S : Serves M cursor) {b : β} (hb : cursor b 0)
    {r₀ : Qcow2Reader β} (hopen : fromBacking b = .ok r₀) {ts : List θ} {c : Shared θ β κ}
    (h : (readAtBody inflate r₀.virtualDiskSize).Schedule (Torn cursor) ts (.start r₀) c) :
    (∀ t call o, (t, call, some o) ∈ c.log →
      o = readAtOf (r₀.guestMap.disk M inflate) call.offset call.buf) ∧
    (∀ t call k, c.phase t = .waiting call k → ∃ ts' c' es,
      (readAtBody inflate r₀.virtualDiskSize).Schedule (Torn cursor) ts' c c' ∧
        (∀ u ∈ ts', u = t ∨ c.owner = some u) ∧ c'.log = c.log ++ es ++
          [(t, call, some (readAtOf (r₀.guestMap.disk M inflate) call.offset call.buf))]) ∧
    (∀ t call k, c.phase t = .inside call k → ∃ n c',
      (readAtBody inflate r₀.virtualDiskSize).Schedule (Torn cursor) (List.replicate n t) c c' ∧
        c'.log = c.log ++
          [(t, call, some (readAtOf (r₀.guestMap.disk M inflate) call.offset call.buf))]) ∧
    (∀ t call k ts' c', c.phase t = .inside call k →
      (readAtBody inflate r₀.virtualDiskSize).Schedule (Torn cursor) ts' c c' →
        call.buf.length + 2 ≤ ts'.count t → ∃ es o, c'.log = c.log ++ es ∧ (t, call, o) ∈ es) := by
  have hr₀ : ∃ p, Qcow2Reader.At cursor r₀.toLayout p r₀ := ⟨0, (fromBacking_at S hb hopen).2⟩
  have hanswers : ∀ {ts' : List θ} {c' : Shared θ β κ},
      (readAtBody inflate r₀.virtualDiskSize).Schedule (Torn cursor) ts' (.start r₀) c' →
      ∀ t call o, (t, call, some o) ∈ c'.log →
        o = readAtOf (r₀.guestMap.disk M inflate) call.offset call.buf := by
    intro ts' c' hrun
    obtain ⟨r, hcalls, -⟩ := ((LockedBody.Serialised.start r₀).schedule hrun).serial
    refine (hcalls.answers (I := fun r => ∃ p, Qcow2Reader.At cursor r₀.toLayout p r)
      (f := fun call => readAtOf (r₀.guestMap.disk M inflate) call.offset call.buf) ?_ ?_ hr₀).2
    · intro r call o r' hr hatomic
      obtain ⟨p, hp⟩ := hr
      have hanswer := serve_answer inflate S
        (s := ⟨r, r₀.virtualDiskSize⟩) (L := r₀.toLayout) ⟨p, hp, rfl⟩ call
      rw [serve_of_atomic inflate hatomic] at hanswer
      obtain ⟨ho, q, hq, -⟩ := hanswer
      exact ⟨ho, q, hq⟩
    · intro r call k k' u v hr henter hsteps htorn
      have hu := exists_at_iff.mp (steps_at inflate S hsteps hr)
      exact exists_at_iff.mpr ⟨htorn.1.trans hu.1, htorn.2⟩
  have hserial := (LockedBody.Serialised.start r₀).schedule h
  refine ⟨hanswers h, ?_, ?_, ?_⟩
  · intro t call k hwait
    obtain ⟨ts', c', es, o, hrun, hthreads, hlog⟩ := hserial.exists_answer hwait
    have ho := hanswers (h.append hrun) t call o (by rw [hlog]; simp)
    exact ⟨ts', c', es, hrun, hthreads, by rw [hlog, ho]⟩
  · intro t call k hin
    obtain ⟨n, c', o, hrun, -, hlog, -⟩ := LockedBody.exists_answer
      (readAtBody inflate r₀.virtualDiskSize) (Torn cursor) hin
    have ho := hanswers (h.append hrun) t call o (by rw [hlog]; simp)
    exact ⟨n, c', hrun, by rw [hlog, ho]⟩
  · intro t call k ts' c' hin hrun hcount
    obtain ⟨r, k₀, -, henter, hsteps⟩ := hserial.alone hin
    have hfirst : k₀.rank ≤ call.buf.length + 1 := enterReadAt_rank henter
    have hle : k.rank ≤ k₀.rank := hsteps.rank_le
    exact hrun.ends hin (show k.rank < ts'.count t by omega)

theorem read_at_survives_panics_sample :
    ∃ (r₀ : Qcow2Reader Cursor) (b c c' d : Shared Bool Cursor Unit) (es : _),
      fromBacking (Cursor.mk sampleImage 0) = .ok r₀ ∧ b.owner = some true ∧ d.log = b.log ++
          [(true, ⟨(), 1, [9, 9]⟩, some (readAtOf
            (r₀.guestMap.disk (Medium.memory sampleImage) .ok) 1 [9, 9]))] ∧
        c.poisoned = true ∧ c.log = [(true, ⟨(), 1, [9, 9]⟩, none)] ∧ c'.log = c.log ++ es ++
          [(false, ⟨(), 3, [9, 9]⟩, some (readAtOf
            (r₀.guestMap.disk (Medium.memory sampleImage) .ok) 3 [9, 9]))] := by
  obtain ⟨r₀, hopen⟩ := exists_ok (x := fromBacking (Cursor.mk sampleImage 0)) (by decide)
  have hsize : r₀.virtualDiskSize = 4 := (opened_image hopen).2.2.trans (by decide)
  obtain ⟨c, hrun, hlog, hshared, hin, hwait⟩ :=
    exists_contended .ok (Torn (Cursor.On sampleImage)) hsize
  have htorn : Torn (Cursor.On sampleImage) c.shared r₀ := by
    rw [hshared]
    exact ⟨rfl, (opened_image hopen).1.2.2⟩
  have hpanic := hrun.append (.cons (.unwind hin htorn) (.nil _))
  have hwait' : (c.leave true ⟨(), 1, [9, 9]⟩ none r₀).phase false =
      .waiting ⟨(), 3, [9, 9]⟩ (.seeking 3 1 [9, 9]) := by
    rw [Locked.phase_leave, if_neg (by decide), hwait]
  obtain ⟨n, d, -, hheld⟩ := (read_at_survives_panics .ok (serves_cursor sampleImage)
    (Cursor.on_start sampleImage) hopen hrun).2.2.1 true _ _ hin
  obtain ⟨ts, c', es, -, -, hlog'⟩ := (read_at_survives_panics .ok (serves_cursor sampleImage)
    (Cursor.on_start sampleImage) hopen hpanic).2.1 false _ _ hwait'
  have howner := ((LockedBody.Serialised.start r₀).schedule hrun).excludes true _ _ hin
  refine ⟨r₀, c, _, c', d, es, hopen, howner, hheld, rfl, ?_, hlog'⟩
  change c.log ++ _ = _
  rw [hlog]
  rfl

end Qcow2Source

end Qcow2
