import Qcow2.StdIo.Program

/-! Pre- and postconditions of programs that may fail: one postcondition for the value, one
for the state an error leaves. -/

namespace StdIo

variable {ε ε' σ τ α β : Type}

theorem Ends.attempt {x : EStateM ε σ α} {P : σ → α → σ → Prop} {R : σ → Option α → σ → Prop}
    (hx : Ends x P) (hsome : ∀ s a t, P s a t → R s (some a) t) (hnone : ∀ s t, R s none t) :
    Ends (StdIo.attempt x : EStateM ε' σ (Option α)) R := by
  intro s o t hrun
  simp only [StdIo.attempt, EStateM.run] at hrun
  cases hx' : x s with
  | ok a u =>
    rw [hx'] at hrun
    cases hrun
    exact hsome s a t (hx s a t hx')
  | error e u =>
    rw [hx'] at hrun
    cases hrun
    exact hnone s t

/-- From every state of `Pre` the program ends in `Post` with its value, or fails in `Fail`. -/
def Triple (Pre : σ → Prop) (x : EStateM ε σ α) (Post : α → σ → Prop) (Fail : σ → Prop) : Prop :=
  ∀ s, Pre s → match x.run s with
    | .ok a t => Post a t
    | .error _ t => Fail t

namespace Triple

variable {Pre Pre' Fail Fail' : σ → Prop} {Post Post' : α → σ → Prop} {x : EStateM ε σ α}

theorem ok (h : Triple Pre x Post Fail) {s t : σ} {a : α} (hs : Pre s) (hrun : x.run s = .ok a t) :
    Post a t := by
  have hpost := h s hs
  rwa [hrun] at hpost

theorem error (h : Triple Pre x Post Fail) {s t : σ} {e : ε} (hs : Pre s)
    (hrun : x.run s = .error e t) : Fail t := by
  have hfail := h s hs
  rwa [hrun] at hfail

theorem of_run (hok : ∀ {s a t}, Pre s → x.run s = .ok a t → Post a t)
    (herror : ∀ {s e t}, Pre s → x.run s = .error e t → Fail t) : Triple Pre x Post Fail := by
  intro s hs
  cases hrun : x.run s with
  | ok a t => exact hok hs hrun
  | error e t => exact herror hs hrun

theorem conseq (h : Triple Pre x Post Fail) (hpre : ∀ s, Pre' s → Pre s)
    (hpost : ∀ a s, Post a s → Post' a s) (hfail : ∀ s, Fail s → Fail' s) :
    Triple Pre' x Post' Fail' :=
  of_run (fun hs hrun => hpost _ _ (h.ok (hpre _ hs) hrun))
    (fun hs hrun => hfail _ (h.error (hpre _ hs) hrun))

theorem mono_fail (h : Triple Pre x Post Fail) (hfail : ∀ s, Fail s → Fail' s) :
    Triple Pre x Post Fail' :=
  h.conseq (fun _ hs => hs) (fun _ _ hs => hs) hfail

theorem mono_pre (h : Triple Pre x Post Fail) (hpre : ∀ s, Pre' s → Pre s) :
    Triple Pre' x Post Fail :=
  h.conseq hpre (fun _ _ hs => hs) (fun _ hs => hs)

/-- A fact about the value alone that holds whenever there is one. -/
theorem and_ends (h : Triple Pre x Post Fail) {P : α → Prop} (hx : Ends x fun _ a _ => P a) :
    Triple Pre x (fun a s => Post a s ∧ P a) Fail :=
  of_run (fun hs hrun => ⟨h.ok hs hrun, hx _ _ _ hrun⟩) (fun hs hrun => h.error hs hrun)

theorem pure {a : α} (h : ∀ s, Pre s → Post a s) :
    Triple Pre (Pure.pure a : EStateM ε σ α) Post Fail := h

theorem throw {e : ε} (h : ∀ s, Pre s → Fail s) :
    Triple Pre (MonadExcept.throw e : EStateM ε σ α) Post Fail := h

theorem bind {Mid : α → σ → Prop} {Post : β → σ → Prop} {f : α → EStateM ε σ β}
    (hx : Triple Pre x Mid Fail) (hf : ∀ a, Triple (Mid a) (f a) Post Fail) :
    Triple Pre (x >>= f) Post Fail := by
  intro s hs
  rw [EStateM.run_bind]
  cases hrun : x.run s with
  | ok a t => exact hf a t (hx.ok hs hrun)
  | error e t => exact hx.error hs hrun

theorem get_bind {Post : β → σ → Prop} {f : σ → EStateM ε σ β}
    (h : ∀ r, Triple (fun s => s = r ∧ Pre r) (f r) Post Fail) :
    Triple Pre (get >>= f) Post Fail := fun s hs => h s s ⟨rfl, hs⟩

theorem modify {f : σ → σ} {Post : PUnit → σ → Prop} (h : ∀ s, Pre s → Post ⟨⟩ (f s)) :
    Triple Pre (modify f : EStateM ε σ PUnit) Post Fail := h

theorem ite {c : Prop} [Decidable c] {y : EStateM ε σ α} (hx : c → Triple Pre x Post Fail)
    (hy : ¬ c → Triple Pre y Post Fail) : Triple Pre (if c then x else y) Post Fail := by
  by_cases hc : c
  · simpa only [if_pos hc] using hx hc
  · simpa only [if_neg hc] using hy hc

theorem adaptExcept (h : Triple Pre x Post Fail) (f : ε → ε') :
    Triple Pre (EStateM.adaptExcept f x) Post Fail := by
  intro s hs
  rw [EStateM.run_adaptExcept]
  cases hrun : x.run s with
  | ok a t => exact h.ok hs hrun
  | error e t => exact h.error hs hrun

/-- After `Result::ok()` a failure is one more value. -/
theorem attempt (h : Triple Pre x Post Fail) (Fail' : σ → Prop) :
    Triple Pre (StdIo.attempt x : EStateM ε' σ (Option α))
      (fun o s => match o with | some a => Post a s | none => Fail s) Fail' := by
  intro s hs
  simp only [StdIo.attempt, EStateM.run]
  cases hrun : x s with
  | ok a t => exact h.ok hs hrun
  | error e t => exact h.error hs hrun

theorem fromResult {o : Except ε α} (hok : ∀ a s, o = .ok a → Pre s → Post a s)
    (herror : ∀ s, Pre s → Fail s) : Triple Pre (StdIo.fromResult o) Post Fail := by
  intro s hs
  rw [run_fromResult]
  cases o with
  | ok a => exact hok a s rfl hs
  | error e => exact herror s hs

theorem zoom {Pre Fail : τ → Prop} {Post : α → τ → Prop} {part : σ → τ} {put : τ → σ → σ}
    {y : EStateM ε τ α} {Pre' Fail' : σ → Prop} {Post' : α → σ → Prop}
    (h : Triple Pre y Post Fail) (hpre : ∀ s, Pre' s → Pre (part s))
    (hpost : ∀ s a t, Pre' s → Post a t → Post' a (put t s))
    (hfail : ∀ s t, Pre' s → Fail t → Fail' (put t s)) :
    Triple Pre' (StdIo.zoom part put y) Post' Fail' := by
  intro s hs
  cases hrun : y.run (part s) with
  | ok a t =>
    rw [run_zoom_ok hrun]
    exact hpost s a t hs (h.ok (hpre s hs) hrun)
  | error e t =>
    rw [run_zoom_error hrun]
    exact hfail s t hs (h.error (hpre s hs) hrun)

/-- Where nothing is known of the part, the rest is what stays. -/
theorem zoom_frame {part : σ → τ} {put : τ → σ → σ} {y : EStateM ε τ α}
    (hpost : ∀ s a t, Pre s → Post a (put t s)) (hfail : ∀ s t, Pre s → Fail (put t s)) :
    Triple Pre (StdIo.zoom part put y) Post Fail := by
  have hany : Triple (fun _ => True) y (fun _ _ => True) fun _ => True :=
    of_run (fun _ _ => trivial) fun _ _ => trivial
  exact hany.zoom (fun _ _ => trivial) (fun s a t hs _ => hpost s a t hs)
    fun s t hs _ => hfail s t hs

end Triple

end StdIo
