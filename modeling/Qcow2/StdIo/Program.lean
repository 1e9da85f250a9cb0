import Qcow2.StdIo.Bytes

/-! Programs with state and errors whose outcome does not depend on where an
invariant state stands. -/

namespace StdIo

variable {ε ε' σ τ α β : Type}

def outcome : EStateM.Result ε σ α → Except ε α
  | .ok a _ => .ok a
  | .error e _ => .error e

theorem exists_ok {x : Except ε α} (h : x.isOk = true) : ∃ a, x = .ok a := by
  cases x with
  | error e => cases h
  | ok a => exact ⟨a, rfl⟩

/-- For facts about a computed result that a decision procedure reads off at once. -/
theorem exists_ok_map {x : Except ε α} {f : α → β} {b : β} (h : x.toOption.map f = some b) :
    ∃ a, x = .ok a ∧ f a = b := by
  cases x with
  | error e => cases h
  | ok a => exact ⟨a, rfl, Option.some.inj h⟩

def withState (o : Except ε α) (s : σ) : EStateM.Result ε σ α :=
  match o with
  | .ok a => .ok a s
  | .error e => .error e s

@[simp] theorem outcome_withState (o : Except ε α) (s : σ) : outcome (withState o s) = o := by
  cases o <;> rfl

@[simp] theorem withState_ok (a : α) (s : σ) :
    withState (.ok a : Except ε α) s = .ok a s := rfl

@[simp] theorem withState_error (e : ε) (s : σ) :
    withState (.error e : Except ε α) s = .error e s := rfl

def answer (x : EStateM ε σ α) (s : σ) : Except ε α × σ :=
  match x.run s with
  | .ok a s' => (.ok a, s')
  | .error e s' => (.error e, s')

theorem answer_eq {x : EStateM ε σ α} {o : Except ε α} {s s' : σ}
    (h : x.run s = withState o s') : answer x s = (o, s') := by
  rw [answer, h]
  cases o <;> rfl

/-- `Result::ok()`: an error becomes `none`. -/
def attempt (x : EStateM ε σ α) : EStateM ε' σ (Option α) := fun s =>
  match x.run s with
  | .ok a s' => .ok (some a) s'
  | .error _ s' => .ok none s'

def zoom (part : σ → τ) (put : τ → σ → σ) (x : EStateM ε τ α) : EStateM ε σ α := fun s =>
  match x.run (part s) with
  | .ok a t => .ok a (put t s)
  | .error e t => .error e (put t s)

theorem run_zoom_ok {part : σ → τ} {put : τ → σ → σ} {x : EStateM ε τ α} {s : σ} {t : τ} {a : α}
    (h : x.run (part s) = .ok a t) : (zoom part put x).run s = .ok a (put t s) := by
  simp only [zoom, EStateM.run] at h ⊢
  rw [h]

theorem run_zoom_error {part : σ → τ} {put : τ → σ → σ} {x : EStateM ε τ α} {s : σ} {t : τ}
    {e : ε} (h : x.run (part s) = .error e t) :
    (zoom part put x).run s = .error e (put t s) := by
  simp only [zoom, EStateM.run] at h ⊢
  rw [h]

def fromResult (o : Except ε α) : EStateM ε σ α := withState o

@[simp] theorem run_fromResult (o : Except ε α) (s : σ) :
    (fromResult o : EStateM ε σ α).run s = withState o s := rfl

theorem adaptExcept_bind (g : ε → ε') (x : EStateM ε σ α) (f : α → EStateM ε σ β) :
    EStateM.adaptExcept g (x >>= f) =
      EStateM.adaptExcept g x >>= fun a => EStateM.adaptExcept g (f a) := by
  funext s
  have hrun : (EStateM.adaptExcept g (x >>= f)).run s =
      (EStateM.adaptExcept g x >>= fun a => EStateM.adaptExcept g (f a)).run s := by
    rw [EStateM.run_adaptExcept, EStateM.run_bind, EStateM.run_bind, EStateM.run_adaptExcept]
    cases x.run s with
    | ok a t => simp only [EStateM.run_adaptExcept]
    | error e t => rfl
  exact hrun

theorem zoom_map (part : σ → τ) (put : τ → σ → σ) (x : EStateM ε τ α) (g : α → β) :
    zoom part put (do let a ← x; pure (g a)) = (do let a ← zoom part put x; pure (g a)) := by
  funext s
  cases hrun : x.run (part s) with
  | ok a t =>
    have hmap : (do let a ← x; pure (g a)).run (part s) = .ok (g a) t := by
      rw [EStateM.run_bind, hrun]
      rfl
    have hright : (do let a ← zoom part put x; pure (g a)).run s = .ok (g a) (put t s) := by
      rw [EStateM.run_bind, run_zoom_ok hrun]
      rfl
    exact (run_zoom_ok hmap).trans hright.symm
  | error e t =>
    have hmap : (do let a ← x; pure (g a)).run (part s) = .error e t := by
      rw [EStateM.run_bind, hrun]
    have hright : (do let a ← zoom part put x; pure (g a)).run s = .error e (put t s) := by
      rw [EStateM.run_bind, run_zoom_error hrun]
    exact (run_zoom_error hmap).trans hright.symm

/-- What holds between the state a program starts in, the value it returns and the
state it leaves. -/
def Ends (x : EStateM ε σ α) (P : σ → α → σ → Prop) : Prop :=
  ∀ s a t, x.run s = .ok a t → P s a t

namespace Ends

variable {x : EStateM ε σ α} {P : σ → α → σ → Prop}

theorem pure {a : α} (h : ∀ s, P s a s) : Ends (Pure.pure a : EStateM ε σ α) P := by
  intro s b t hrun
  cases hrun
  exact h s

theorem bind {f : α → EStateM ε σ β} {Q : α → σ → β → σ → Prop} {R : σ → β → σ → Prop}
    (hx : Ends x P) (hf : ∀ a, Ends (f a) (Q a))
    (h : ∀ s a u b t, P s a u → Q a u b t → R s b t) : Ends (x >>= f) R := by
  intro s b t hrun
  rw [EStateM.run_bind] at hrun
  cases hx' : x.run s with
  | ok a u =>
    rw [hx'] at hrun
    exact h s a u b t (hx s a u hx') (hf a u b t hrun)
  | error e u =>
    rw [hx'] at hrun
    cases hrun

theorem map {g : α → β} {R : σ → β → σ → Prop} (hx : Ends x P)
    (h : ∀ s a t, P s a t → R s (g a) t) : Ends (do let a ← x; Pure.pure (g a)) R :=
  hx.bind (Q := fun a s b t => b = g a ∧ t = s) (fun _ => Ends.pure fun _ => ⟨rfl, rfl⟩) <| by
    intro s a u b t hu hb
    rw [hb.1, hb.2]
    exact h s a u hu

theorem get_bind {f : σ → EStateM ε σ β} {R : σ → β → σ → Prop}
    (h : ∀ s b t, (f s).run s = .ok b t → R s b t) : Ends (get >>= f) R := h

theorem ite {c : Prop} [Decidable c] {y : EStateM ε σ α} (hx : c → Ends x P)
    (hy : ¬ c → Ends y P) : Ends (if c then x else y) P := by
  by_cases hc : c
  · simpa only [if_pos hc] using hx hc
  · simpa only [if_neg hc] using hy hc

theorem adaptExcept (hx : Ends x P) (f : ε → ε') : Ends (EStateM.adaptExcept f x) P := by
  intro s a t hrun
  rw [EStateM.run_adaptExcept] at hrun
  cases hx' : x.run s with
  | ok b u =>
    rw [hx'] at hrun
    cases hrun
    exact hx s a t hx'
  | error e u =>
    rw [hx'] at hrun
    cases hrun

end Ends

/-- From every state of `I` the program ends with outcome `o`, in a state of `I`. -/
def Computes (I : σ → Prop) (x : EStateM ε σ α) (o : Except ε α) : Prop :=
  ∀ s, I s → ∃ s', I s' ∧ x.run s = withState o s'

namespace Computes

variable {I : σ → Prop}

theorem pure (a : α) : Computes I (Pure.pure a : EStateM ε σ α) (.ok a) :=
  fun s hs => ⟨s, hs, rfl⟩

theorem bind_ok {x : EStateM ε σ α} {a : α} {f : α → EStateM ε σ β} {u : Except ε β}
    (hx : Computes I x (.ok a)) (hf : Computes I (f a) u) : Computes I (x >>= f) u := by
  intro s hs
  obtain ⟨s', hs', hrun⟩ := hx s hs
  obtain ⟨t, ht, hrun'⟩ := hf s' hs'
  exact ⟨t, ht, by rw [EStateM.run_bind, hrun]; exact hrun'⟩

theorem bind_error {x : EStateM ε σ α} {e : ε} {f : α → EStateM ε σ β}
    (hx : Computes I x (.error e)) : Computes I (x >>= f) (.error e) := by
  intro s hs
  obtain ⟨s', hs', hrun⟩ := hx s hs
  exact ⟨s', hs', by rw [EStateM.run_bind, hrun]; rfl⟩

theorem map {x : EStateM ε σ α} {o : Except ε α} (hx : Computes I x o) (f : α → β) :
    Computes I (do let a ← x; Pure.pure (f a)) (o.map f) := by
  intro s hs
  obtain ⟨s', hs', hrun⟩ := hx s hs
  refine ⟨s', hs', ?_⟩
  rw [EStateM.run_bind, hrun]
  cases o <;> rfl

theorem attempt {x : EStateM ε σ α} {o : Except ε α} (hx : Computes I x o) :
    Computes I (StdIo.attempt x : EStateM ε' σ (Option α)) (.ok o.toOption) := by
  intro s hs
  obtain ⟨s', hs', hrun⟩ := hx s hs
  refine ⟨s', hs', ?_⟩
  simp only [StdIo.attempt, EStateM.run] at hrun ⊢
  cases o <;> simp [hrun, Except.toOption]

theorem adaptExcept {x : EStateM ε σ α} {o : Except ε α} (hx : Computes I x o) (f : ε → ε') :
    Computes I (EStateM.adaptExcept f x) (o.mapError f) := by
  intro s hs
  obtain ⟨s', hs', hrun⟩ := hx s hs
  exact ⟨s', hs', by cases o <;> simp [hrun, Except.mapError]⟩

theorem ite {c : Prop} [Decidable c] {x y : EStateM ε σ α} {o u : Except ε α}
    (hx : c → Computes I x o) (hy : ¬ c → Computes I y u) :
    Computes I (if c then x else y) (if c then o else u) := by
  by_cases hc : c
  · simpa only [if_pos hc] using hx hc
  · simpa only [if_neg hc] using hy hc

theorem zoom {J : τ → Prop} {part : σ → τ} {put : τ → σ → σ} {x : EStateM ε τ α}
    {o : Except ε α} (hx : Computes J x o) (hpart : ∀ s, I s → J (part s))
    (hput : ∀ s t, I s → J t → I (put t s)) : Computes I (StdIo.zoom part put x) o := by
  intro s hs
  obtain ⟨t, ht, hrun⟩ := hx (part s) (hpart s hs)
  refine ⟨put t s, hput s t hs ht, ?_⟩
  cases o with
  | error e => exact run_zoom_error hrun
  | ok a => exact run_zoom_ok hrun

theorem outcome_eq {x : EStateM ε σ α} {o : Except ε α} (hx : Computes I x o) {s : σ}
    (hs : I s) : outcome (x.run s) = o := by
  obtain ⟨s', -, hrun⟩ := hx s hs
  rw [hrun, outcome_withState]

end Computes

def Total (x : EStateM ε σ α) : Prop := ∀ s, ∃ a s', x.run s = .ok a s'

namespace Total

theorem pure (a : α) : Total (Pure.pure a : EStateM ε σ α) := fun s => ⟨a, s, rfl⟩

theorem bind {x : EStateM ε σ α} {f : α → EStateM ε σ β} (hx : Total x)
    (hf : ∀ a, Total (f a)) : Total (x >>= f) := by
  intro s
  obtain ⟨a, s', hrun⟩ := hx s
  obtain ⟨b, t, hrun'⟩ := hf a s'
  exact ⟨b, t, by rw [EStateM.run_bind, hrun]; exact hrun'⟩

theorem attempt (x : EStateM ε σ α) : Total (StdIo.attempt x : EStateM ε' σ (Option α)) := by
  intro s
  simp only [StdIo.attempt, EStateM.run]
  cases x s with
  | ok a s' => exact ⟨some a, s', rfl⟩
  | error e s' => exact ⟨none, s', rfl⟩

theorem ite {c : Prop} [Decidable c] {x y : EStateM ε σ α} (hx : Total x) (hy : Total y) :
    Total (if c then x else y) := by
  by_cases hc : c
  · simpa only [if_pos hc] using hx
  · simpa only [if_neg hc] using hy

end Total

end StdIo
