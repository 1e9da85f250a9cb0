import Qcow2.StdIo.Program

/-! Machines that answer calls one at a time, and the simulation of their runs by
steps of another system. -/

namespace StdIo

variable {σ τ ι ω : Type}

abbrev Machine (σ ι ω : Type) := ι → σ → ω × σ

namespace Machine

variable (m : Machine σ ι ω)

def run : List ι → σ → List ω × σ
  | [], s => ([], s)
  | i :: is, s => ((m i s).1 :: (run is (m i s).2).1, (run is (m i s).2).2)

theorem run_append_singleton (is : List ι) (i : ι) (s : σ) :
    m.run (is ++ [i]) s =
      ((m.run is s).1 ++ [(m i (m.run is s).2).1], (m i (m.run is s).2).2) := by
  induction is generalizing s with
  | nil => rfl
  | cons j is ih => simp only [List.cons_append, run, ih]

/-- `ok` holds of every call at the state it is made in. -/
def Admits (ok : ι → σ → Prop) : List ι → σ → Prop
  | [], _ => True
  | i :: is, s => ok i s ∧ Admits ok is (m i s).2

end Machine

/-- `step t i o u`: the call `i` leads from `t` to `u` with the answer `o`. -/
inductive Runs (step : τ → ι → ω → τ → Prop) : τ → List ι → List ω → τ → Prop
  | nil (t : τ) : Runs step t [] [] t
  | cons {t u v : τ} {i : ι} {o : ω} {is : List ι} {os : List ω} (head : step t i o u)
      (tail : Runs step u is os v) : Runs step t (i :: is) (o :: os) v

theorem Runs.mono {step step' : τ → ι → ω → τ → Prop}
    (h : ∀ t i o u, step t i o u → step' t i o u) {t u : τ} {is : List ι} {os : List ω}
    (hr : Runs step t is os u) : Runs step' t is os u := by
  induction hr with
  | nil t => exact .nil t
  | cons head tail ih => exact .cons (h _ _ _ _ head) ih

namespace Machine

variable {m : Machine σ ι ω} {ok : ι → σ → Prop} {step : τ → ι → ω → τ → Prop}
  {R : σ → τ → Prop}

theorem simulates (hstep : ∀ s t i, R s t → ok i s →
      ∃ u, step t i (m i s).1 u ∧ R (m i s).2 u)
    {is : List ι} {s : σ} {t : τ} (hR : R s t) (hok : m.Admits ok is s) :
    ∃ u, Runs step t is (m.run is s).1 u ∧ R (m.run is s).2 u := by
  induction is generalizing s t with
  | nil => exact ⟨t, .nil t, hR⟩
  | cons i is ih =>
    obtain ⟨hi, his⟩ := hok
    obtain ⟨u, hu, hR'⟩ := hstep s t i hR hi
    obtain ⟨v, hv, hR''⟩ := ih hR' his
    exact ⟨v, .cons hu hv, hR''⟩

theorem run_of_stateless {I : σ → Prop} {f : ι → ω}
    (hstep : ∀ s i, I s → (m i s).1 = f i ∧ I (m i s).2) {is : List ι} {s : σ} (hs : I s) :
    (m.run is s).1 = is.map f ∧ I (m.run is s).2 := by
  induction is generalizing s with
  | nil => exact ⟨rfl, hs⟩
  | cons i is ih =>
    obtain ⟨ho, hs'⟩ := hstep s i hs
    obtain ⟨hos, ht⟩ := ih hs'
    exact ⟨by simp only [run, ho, hos, List.map_cons], ht⟩

/-- Machines in related states answer every sequence of calls alike. -/
theorem run_eq_of_bisim {m' : Machine τ ι ω} (hstep : ∀ s t i, R s t →
      (m i s).1 = (m' i t).1 ∧ R (m i s).2 (m' i t).2)
    {is : List ι} {s : σ} {t : τ} (hR : R s t) : (m.run is s).1 = (m'.run is t).1 := by
  induction is generalizing s t with
  | nil => rfl
  | cons i is ih =>
    obtain ⟨ho, hR'⟩ := hstep s t i hR
    simp only [run, ho, ih hR']

theorem run_invariant {I : σ → Prop} (hstep : ∀ s i, I s → I (m i s).2) {is : List ι} {s : σ}
    (hs : I s) : I (m.run is s).2 := by
  induction is generalizing s with
  | nil => exact hs
  | cons i is ih => exact ih (hstep s i hs)

end Machine

end StdIo
