import Qcow2.StdIo.Checked
import Qcow2.StdIo.Sources
import Qcow2.StdIo.Triple

/-! The work a program asks of a source, as credits that every call and every byte takes from
what the program was given. -/

namespace StdIo

variable {ε ε' σ τ α β : Type} {work : σ → Nat}

/-- With `credit` in hand the program ends with `left` of it and the rest spent. -/
def Spends (work : σ → Nat) (x : EStateM ε σ α) (credit : Nat) (left : α → Nat) : Prop :=
  ∀ n, Triple (fun s => work s + credit ≤ n) x (fun a s => work s + left a ≤ n)
    (fun s => work s ≤ n)

namespace Spends

variable {x : EStateM ε σ α} {credit credit' : Nat} {left left' : α → Nat}

theorem pure {a : α} (h : left a ≤ credit) :
    Spends work (Pure.pure a : EStateM ε σ α) credit left :=
  fun _ => Triple.pure fun _ _ => by omega

theorem throw {e : ε} : Spends work (MonadExcept.throw e : EStateM ε σ α) credit left :=
  fun _ => Triple.throw fun _ _ => by omega

theorem mono (h : Spends work x credit left) (hcredit : credit ≤ credit')
    (hleft : ∀ a, left' a ≤ left a) : Spends work x credit' left' :=
  fun n => (h n).conseq (fun _ _ => by omega) (fun a _ _ => by have := hleft a; omega) fun _ h => h

/-- Credit that is not needed is kept. -/
theorem keep (h : Spends work x credit left) (k : Nat) :
    Spends work x (credit + k) (fun a => left a + k) := by
  intro n s hs
  have hrest := h (n - k) s (show work s + credit ≤ n - k by omega)
  cases hrun : x.run s with
  | ok a t =>
    rw [hrun] at hrest
    exact (show work t + (left a + k) ≤ n by have : work t + left a ≤ n - k := hrest; omega)
  | error e t =>
    rw [hrun] at hrest
    exact (show work t ≤ n by have : work t ≤ n - k := hrest; omega)

theorem bind {f : α → EStateM ε σ β} {left' : β → Nat} (hx : Spends work x credit left)
    (hf : ∀ a, Spends work (f a) (left a) left') : Spends work (x >>= f) credit left' :=
  fun n => (hx n).bind fun a => hf a n

/-- The rest may rely on what holds of the value. -/
theorem bind_of {f : α → EStateM ε σ β} {left' : β → Nat} {P : α → Prop}
    (hx : Spends work x credit left) (hP : Ends x fun _ a _ => P a)
    (hf : ∀ a, P a → Spends work (f a) (left a) left') : Spends work (x >>= f) credit left' :=
  fun n => ((hx n).and_ends hP).bind fun a s hs => hf a hs.2 n s hs.1

theorem get_bind {f : σ → EStateM ε σ β} {left' : β → Nat}
    (h : ∀ r, Spends work (f r) credit left') : Spends work (get >>= f) credit left' :=
  fun n => Triple.get_bind fun r => (h r n).mono_pre fun _ hs => hs.1 ▸ hs.2

theorem modify {f : σ → σ} (h : ∀ s, work (f s) ≤ work s) :
    Spends work (modify f : EStateM ε σ PUnit) credit fun _ => credit :=
  fun _ => Triple.modify fun s hs => (Nat.add_le_add_right (h s) credit).trans hs

theorem ite {c : Prop} [Decidable c] {y : EStateM ε σ α} (hx : c → Spends work x credit left)
    (hy : ¬ c → Spends work y credit left) : Spends work (if c then x else y) credit left :=
  fun n => Triple.ite (fun hc => hx hc n) (fun hc => hy hc n)

theorem adaptExcept (h : Spends work x credit left) (f : ε → ε') :
    Spends work (EStateM.adaptExcept f x) credit left :=
  fun n => (h n).adaptExcept f

theorem fromResult {o : Except ε α} : Spends work (StdIo.fromResult o) credit fun _ => credit :=
  fun _ => Triple.fromResult (fun _ _ _ h => h) (fun _ _ => by omega)

theorem attempt {k : Nat} (h : Spends work x credit fun _ => 0) :
    Spends work (StdIo.attempt x : EStateM ε' σ (Option α)) (credit + k) fun _ => k := by
  intro n
  have hkeep : Triple (fun s => work s + (credit + k) ≤ n) x (fun _ s => work s + k ≤ n)
      (fun s => work s + k ≤ n) :=
    fun s hs => by
      have hrest := h (n - k) s (show work s + credit ≤ n - k by omega)
      cases hrun : x.run s with
      | ok a t =>
        rw [hrun] at hrest
        exact (show work t + k ≤ n by have : work t + 0 ≤ n - k := hrest; omega)
      | error e t =>
        rw [hrun] at hrest
        exact (show work t + k ≤ n by have : work t ≤ n - k := hrest; omega)
  exact (hkeep.attempt fun s => work s ≤ n).conseq (fun _ h => h)
    (fun o _ h => by cases o <;> exact h) fun _ h => h

theorem zoom {work' : τ → Nat} {part : σ → τ} {put : τ → σ → σ} {y : EStateM ε τ α}
    (h : Spends work' y credit left) (hpart : ∀ s, work s = work' (part s))
    (hput : ∀ t s, work (put t s) = work' t) :
    Spends work (StdIo.zoom part put y) credit left :=
  fun n => (h n).zoom (fun s hs => by rwa [← hpart]) (fun s a t _ ht => by rwa [hput])
    (fun s t _ ht => by rwa [hput])

def leftBy : EStateM.Result ε σ α → σ
  | .ok _ t => t
  | .error _ t => t

theorem spent (h : Spends work x credit left) (s : σ) :
    work (leftBy (x.run s)) ≤ work s + credit := by
  have hrest := h (work s + credit) s le_rfl
  cases hrun : x.run s with
  | ok a t =>
    rw [hrun] at hrest
    exact (show work t ≤ work s + credit by
      have : work t + left a ≤ work s + credit := hrest
      omega)
  | error e t =>
    rw [hrun] at hrest
    exact hrest

end Spends

/-- No read fails with `Interrupted`, upon which `read_exact` tries again without an end. -/
def Uninterrupted (β : Type) [ReadSeek β] : Prop :=
  ∀ (n : Nat) (s s' : β) (e : IoError), (ReadSeek.read n).run s = .error e s' →
    e.kind ≠ .interrupted

/-- A count of a source that grows by at most one a call and one a byte. -/
structure Counts [ReadSeek β] (work : β → Nat) : Prop where
  within : ReadsWithin β
  uninterrupted : Uninterrupted β
  read : ∀ n, Spends work (ReadSeek.read n : EStateM IoError β (List UInt8)) (1 + n)
    fun bs => n - bs.length
  seek : ∀ s, Spends work (ReadSeek.seek s : EStateM IoError β Nat) 1 fun _ => 0

structure CountsFile [FileSource β] (work : β → Nat) : Prop extends Counts work where
  fileLen : Spends work (FileSource.fileLen : EStateM IoError β Nat) 1 fun _ => 0

namespace Counts

variable [ReadSeek β] {work : β → Nat}

/-- Every pass of the loop takes a byte, so the calls are as many as the bytes. -/
theorem fillLoop (C : Counts work) (fuel want : Nat) :
    Spends work (StdIo.fillLoop fuel want : EStateM IoError β (List UInt8)) (2 * want + 1)
      fun _ => 0 := by
  induction fuel generalizing want with
  | zero => exact Spends.pure (Nat.zero_le _)
  | succ fuel ih =>
    rw [StdIo.fillLoop]
    refine Spends.ite (fun _ => Spends.pure (Nat.zero_le _)) fun _ => ?_
    have hread : Spends work (ReadSeek.read want : EStateM IoError β (List UInt8)) (2 * want + 1)
        fun bs => want - bs.length + want :=
      ((C.read want).keep want).mono (by omega) fun _ => le_rfl
    refine hread.bind_of (P := fun bs => bs.length ≤ want)
      (fun s bs t hrun => C.within want s t bs hrun) fun bs hbs => ?_
    refine Spends.ite (fun _ => Spends.pure (Nat.zero_le _)) fun hne => ?_
    have hpos : 0 < bs.length := List.length_pos_iff.mpr hne
    exact ((ih (want - bs.length)).mono (by omega) fun _ => le_rfl).bind fun _ => Spends.pure le_rfl

theorem fill (C : Counts work) (n : Nat) :
    Spends work (StdIo.fill n : EStateM IoError β (List UInt8)) (2 * n + 1) fun _ => 0 :=
  C.fillLoop n n

theorem readExact (C : Counts work) (n : Nat) :
    Spends work (StdIo.readExact n : EStateM IoError β (List UInt8)) (2 * n + 1) fun _ => 0 :=
  (C.fill n).bind fun _ => Spends.ite (fun _ => Spends.throw) fun _ => Spends.pure le_rfl

theorem readExactAt (C : Counts work) (off n : Nat) :
    Spends work (StdIo.readExactAt off n : EStateM IoError β (List UInt8)) (2 * n + 2)
      fun _ => 0 :=
  (((C.seek (.start off)).keep (2 * n + 1)).mono (by omega) fun _ => le_rfl).bind fun _ =>
    (C.readExact n).mono (by omega) fun _ => le_rfl

theorem fillAt (C : Counts work) (off n : Nat) :
    Spends work (StdIo.fillAt off n : EStateM IoError β (List UInt8)) (2 * n + 2) fun _ => 0 :=
  (((C.seek (.start off)).keep (2 * n + 1)).mono (by omega) fun _ => le_rfl).bind fun _ =>
    (C.fill n).mono (by omega) fun _ => le_rfl

end Counts

end StdIo
