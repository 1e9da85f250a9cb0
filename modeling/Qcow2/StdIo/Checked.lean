import Qcow2.StdIo.Backing
import Qcow2.StdIo.Words

/-! Arithmetic and slicing that panic out of range, and programs that behave with
them as they do without. -/

namespace StdIo

variable {ε ε' σ τ α β : Type}

inductive Trap (ε : Type) where
  | panic
  | error (e : ε)

def Trap.map (f : ε → ε') : Trap ε → Trap ε'
  | .panic => .panic
  | .error e => .error (f e)

def check (c : Prop) [Decidable c] (a : α) : EStateM (Trap ε) σ α :=
  if c then pure a else throw .panic

def addIn (w x y : Nat) : EStateM (Trap ε) σ Nat := check (x + y < 2 ^ w) (x + y)

def subIn (x y : Nat) : EStateM (Trap ε) σ Nat := check (y ≤ x) (x - y)

def mulIn (w x y : Nat) : EStateM (Trap ε) σ Nat := check (x * y < 2 ^ w) (x * y)

def addI64 (x y : Int) : EStateM (Trap ε) σ Int := check (InI64 (x + y)) (x + y)

/-- Only the amount of a shift is checked: bits may leave the word. -/
def shlIn (w x n : Nat) : EStateM (Trap ε) σ Nat := check (n < w) (x <<< n % 2 ^ w)

def shrIn (w x n : Nat) : EStateM (Trap ε) σ Nat := check (n < w) (x >>> n)

/-- `&bs[start..stop]`. -/
def sliceIn (bs : List α) (start stop : Nat) : EStateM (Trap ε) σ (List α) :=
  check (start ≤ stop ∧ stop ≤ bs.length) (slice bs start (stop - start))

def embed (x : EStateM ε σ α) : EStateM (Trap ε) σ α := EStateM.adaptExcept .error x

/-- `Result::ok()`, which a panic goes through. -/
def attemptIn (x : EStateM (Trap ε) σ α) : EStateM (Trap ε') σ (Option α) := fun s =>
  match x.run s with
  | .ok a s' => .ok (some a) s'
  | .error (.error _) s' => .ok none s'
  | .error .panic s' => .error .panic s'

section Passed

variable {w x y n : Nat}

theorem check_of {c : Prop} [Decidable c] (h : c) (a : α) :
    (check c a : EStateM (Trap ε) σ α) = pure a := if_pos h

theorem run_check_of_not {c : Prop} [Decidable c] (h : ¬ c) (a : α) (s : σ) :
    (check c a : EStateM (Trap ε) σ α).run s = .error .panic s := by
  rw [check, if_neg h]
  rfl

theorem addIn_of_lt (h : x + y < 2 ^ w) : (addIn w x y : EStateM (Trap ε) σ Nat) = pure (x + y) :=
  check_of h _

theorem subIn_of_le (h : y ≤ x) : (subIn x y : EStateM (Trap ε) σ Nat) = pure (x - y) :=
  check_of h _

theorem mulIn_of_lt (h : x * y < 2 ^ w) : (mulIn w x y : EStateM (Trap ε) σ Nat) = pure (x * y) :=
  check_of h _

theorem shlIn_one (h : n < w) : (shlIn w 1 n : EStateM (Trap ε) σ Nat) = pure (2 ^ n) := by
  have hlt : 2 ^ n < 2 ^ w := Nat.pow_lt_pow_right (by omega) h
  rw [shlIn, check_of h, Nat.one_shiftLeft, Nat.mod_eq_of_lt hlt]

theorem shrIn_of_lt (h : n < w) : (shrIn w x n : EStateM (Trap ε) σ Nat) = pure (x >>> n) :=
  check_of h _

theorem sliceIn_of_le {bs : List α} {start stop : Nat} (h : start ≤ stop) (h' : stop ≤ bs.length) :
    (sliceIn bs start stop : EStateM (Trap ε) σ (List α)) = pure (slice bs start (stop - start)) :=
  check_of ⟨h, h'⟩ _

end Passed

theorem run_embed_ok {x : EStateM ε σ α} {s s' : σ} {a : α} (h : x.run s = .ok a s') :
    (embed x).run s = .ok a s' := by
  rw [embed, EStateM.run_adaptExcept, h]

theorem run_embed_error {x : EStateM ε σ α} {s s' : σ} {e : ε} (h : x.run s = .error e s') :
    (embed x).run s = .error (.error e) s' := by
  rw [embed, EStateM.run_adaptExcept, h]

/-- From `s` the checked program does what the unchecked one does. -/
def Agrees (x' : EStateM (Trap ε) σ α) (x : EStateM ε σ α) (s : σ) : Prop :=
  x'.run s = (embed x).run s

namespace Agrees

variable {x' : EStateM (Trap ε) σ α} {x : EStateM ε σ α} {s : σ}

theorem pure (a : α) (s : σ) : Agrees (Pure.pure a : EStateM (Trap ε) σ α) (Pure.pure a) s := rfl

theorem embed (x : EStateM ε σ α) (s : σ) : Agrees (StdIo.embed x) x s := rfl

/-- The checked part may return more than the unchecked one, by a function of its value. -/
theorem bind_map {g : α → τ} {y' : EStateM (Trap ε) σ τ} {f' : τ → EStateM (Trap ε) σ β}
    {f : α → EStateM ε σ β} (hy : Agrees y' (do let a ← x; Pure.pure (g a)) s)
    (hf : ∀ a t, x.run s = .ok a t → Agrees (f' (g a)) (f a) t) :
    Agrees (y' >>= f') (x >>= f) s := by
  unfold Agrees at hy ⊢
  rw [EStateM.run_bind, hy]
  cases hrun : x.run s with
  | ok a t =>
    have hbind : (x >>= f).run s = (f a).run t := by rw [EStateM.run_bind, hrun]
    have hmap : (do let a ← x; Pure.pure (g a)).run s = .ok (g a) t := by
      rw [EStateM.run_bind, hrun]
      rfl
    have hrest : (f' (g a)).run t = (StdIo.embed (f a)).run t := hf a t hrun
    rw [run_embed_ok hmap]
    simp only [hrest, StdIo.embed, EStateM.run_adaptExcept, hbind]
  | error e t =>
    have hbind : (x >>= f).run s = .error e t := by rw [EStateM.run_bind, hrun]
    have hmap : (do let a ← x; Pure.pure (g a)).run s = .error e t := by
      rw [EStateM.run_bind, hrun]
    rw [run_embed_error hmap, run_embed_error hbind]

theorem bind {f' : α → EStateM (Trap ε) σ β} {f : α → EStateM ε σ β} (hx : Agrees x' x s)
    (hf : ∀ a t, x.run s = .ok a t → Agrees (f' a) (f a) t) : Agrees (x' >>= f') (x >>= f) s :=
  bind_map (g := id) (by simpa using hx) hf

theorem get_bind {f' : σ → EStateM (Trap ε) σ β} {f : σ → EStateM ε σ β}
    (h : Agrees (f' s) (f s) s) : Agrees (get >>= f') (get >>= f) s := h

theorem get_left {f' : σ → EStateM (Trap ε) σ α} (h : Agrees (f' s) x s) :
    Agrees (get >>= f') x s := h

theorem ite {c : Prop} [Decidable c] {y' : EStateM (Trap ε) σ α} {y : EStateM ε σ α}
    (hx : c → Agrees x' x s) (hy : ¬ c → Agrees y' y s) :
    Agrees (if c then x' else y') (if c then x else y) s := by
  by_cases hc : c
  · simpa only [if_pos hc] using hx hc
  · simpa only [if_neg hc] using hy hc

theorem zoom {part : σ → τ} (put : τ → σ → σ) {y' : EStateM (Trap ε) τ α} {y : EStateM ε τ α}
    (h : Agrees y' y (part s)) : Agrees (StdIo.zoom part put y') (StdIo.zoom part put y) s := by
  unfold Agrees at h ⊢
  cases hrun : y.run (part s) with
  | ok a t =>
    rw [run_embed_ok hrun] at h
    rw [run_embed_ok (run_zoom_ok hrun), run_zoom_ok h]
  | error e t =>
    rw [run_embed_error hrun] at h
    rw [run_embed_error (run_zoom_error hrun), run_zoom_error h]

theorem adaptExcept (h : Agrees x' x s) (f : ε → ε') :
    Agrees (EStateM.adaptExcept (Trap.map f) x') (EStateM.adaptExcept f x) s := by
  unfold Agrees at h ⊢
  simp only [StdIo.embed, EStateM.run_adaptExcept] at h ⊢
  rw [h]
  cases x.run s <;> rfl

theorem attemptIn (h : Agrees x' x s) :
    Agrees (StdIo.attemptIn x' : EStateM (Trap ε') σ (Option α)) (attempt x) s := by
  unfold Agrees at h ⊢
  cases hrun : x.run s with
  | ok a t =>
    have hplain : (attempt x : EStateM ε' σ (Option α)).run s = .ok (some a) t := by
      simp only [attempt, EStateM.run] at hrun ⊢
      rw [hrun]
    rw [run_embed_ok hrun] at h
    simp only [StdIo.attemptIn, EStateM.run] at h ⊢
    rw [h]
    exact (run_embed_ok hplain).symm
  | error e t =>
    have hplain : (attempt x : EStateM ε' σ (Option α)).run s = .ok none t := by
      simp only [attempt, EStateM.run] at hrun ⊢
      rw [hrun]
    rw [run_embed_error hrun] at h
    simp only [StdIo.attemptIn, EStateM.run] at h ⊢
    rw [h]
    exact (run_embed_ok hplain).symm

theorem outcome_eq (h : Agrees x' x s) :
    outcome (x'.run s) = (outcome (x.run s)).mapError .error := by
  unfold Agrees at h
  rw [h]
  cases hrun : x.run s with
  | ok a t =>
    rw [run_embed_ok hrun]
    rfl
  | error e t =>
    rw [run_embed_error hrun]
    rfl

theorem ne_panic (h : Agrees x' x s) : outcome (x'.run s) ≠ .error .panic := by
  unfold Agrees at h
  rw [h]
  cases hrun : x.run s with
  | ok a t =>
    rw [run_embed_ok hrun]
    exact fun hp => by cases hp
  | error e t =>
    rw [run_embed_error hrun]
    exact fun hp => by cases hp

theorem outcome_ok (h : Agrees x' x s) {a : α} (ha : outcome (x'.run s) = .ok a) :
    outcome (x.run s) = .ok a := by
  unfold Agrees at h
  rw [h] at ha
  cases hrun : x.run s with
  | ok b t =>
    rw [run_embed_ok hrun] at ha
    cases ha
    rfl
  | error e t =>
    rw [run_embed_error hrun] at ha
    cases ha

end Agrees

section Fill

variable {β : Type} [ReadSeek β]

/-- What is asked of a source that need not serve any fixed bytes. -/
def ReadsWithin (β : Type) [ReadSeek β] : Prop :=
  ∀ (n : Nat) (b b' : β) (bs : List UInt8), (ReadSeek.read n).run b = .ok bs b' → bs.length ≤ n

/-- The loop that fills `buf` from `filled` on: the buffer and how much of it is filled. -/
def fillInto : Nat → List UInt8 → Nat → EStateM (Trap IoError) β (List UInt8 × Nat)
  | 0, buf, filled => return (buf, filled)
  | fuel + 1, buf, filled => do
    if filled < buf.length then
      let rest ← sliceIn buf filled buf.length
      let bs ← embed (ReadSeek.read rest.length)
      if bs = [] then
        return (buf, filled)
      let filled' ← addIn 64 filled bs.length
      fillInto fuel (overwrite buf filled bs) filled'
    else
      return (buf, filled)

theorem fillLoop_ends (hread : ReadsWithin β) (fuel want : Nat) :
    Ends (fillLoop fuel want : EStateM IoError β (List UInt8)) fun _ bs _ => bs.length ≤ want := by
  induction fuel generalizing want with
  | zero => exact Ends.pure fun _ => Nat.zero_le _
  | succ fuel ih =>
    rw [fillLoop]
    refine Ends.ite (fun _ => Ends.pure fun _ => Nat.zero_le _) fun _ => ?_
    refine Ends.bind (P := fun _ bs _ => bs.length ≤ want)
      (Q := fun bs _ out _ => bs.length ≤ want → out.length ≤ want)
      (fun s bs t hrun => hread want s t bs hrun) ?_ (fun _ _ _ _ _ hbs hout => hout hbs)
    intro bs
    refine Ends.ite (fun _ => Ends.pure fun _ _ => Nat.zero_le _) fun _ => ?_
    refine (ih (want - bs.length)).map ?_
    intro _ rest _ hrest hbs
    rw [List.length_append]
    omega

theorem fillAt_ends (hread : ReadsWithin β) (off n : Nat) :
    Ends (fillAt off n : EStateM IoError β (List UInt8)) fun _ bs _ => bs.length ≤ n :=
  Ends.bind (P := fun _ _ _ => True) (fun _ _ _ _ => trivial) (fun _ => fillLoop_ends hread n n)
    fun _ _ _ _ _ _ hbs => hbs

theorem fillInto_agrees (hread : ReadsWithin β) (fuel : Nat) {filled : Nat} {buf : List UInt8}
    (hbuf : buf.length < 2 ^ 64) (hfilled : filled ≤ buf.length) (b : β) :
    Agrees (fillInto fuel buf filled)
      (do let bs ← fillLoop fuel (buf.length - filled)
          return (overwrite buf filled bs, filled + bs.length)) b := by
  induction fuel generalizing buf filled b with
  | zero =>
    rw [fillInto, fillLoop, pure_bind, overwrite_nil]
    exact Agrees.pure _ _
  | succ fuel ih =>
    rw [fillInto, fillLoop]
    by_cases hlt : filled < buf.length
    · have hrest : (slice buf filled (buf.length - filled)).length = buf.length - filled :=
        length_slice_of_le (by omega)
      rw [if_pos hlt, if_neg (by omega), sliceIn_of_le hfilled le_rfl, pure_bind, hrest, bind_assoc]
      refine Agrees.bind (Agrees.embed _ _) ?_
      intro bs t hrun
      have hbs := hread _ _ _ _ hrun
      by_cases hnil : bs = []
      · rw [if_pos hnil, if_pos hnil, pure_bind, overwrite_nil]
        exact Agrees.pure _ _
      · have hlen : (overwrite buf filled bs).length = buf.length := length_overwrite (by omega)
        have hrec := ih (hlen.symm ▸ hbuf) (by omega : filled + bs.length ≤ _) t
        rw [hlen, ← Nat.sub_sub] at hrec
        rw [if_neg hnil, if_neg hnil, addIn_of_lt (by omega), pure_bind]
        simpa only [bind_assoc, pure_bind, overwrite_append hfilled, List.length_append,
          Nat.add_assoc] using hrec
    · rw [if_neg hlt, if_pos (by omega), pure_bind, overwrite_nil]
      exact Agrees.pure _ _

end Fill

end StdIo
