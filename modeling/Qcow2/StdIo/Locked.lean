import Qcow2.StdIo.Calls
import Mathlib.Logic.Function.Basic

/-! Calls that run step by step behind one lock, made by any number of threads: every
interleaving amounts to the whole calls one after another, in the order they end. -/

namespace StdIo

variable {θ σ ι κ ω : Type}

inductive Progress (κ ω : Type) where
  | answered (o : ω)
  | going (k : κ)

/-- A call answers before it takes the lock, or runs its body on what the lock guards.
`rank` bounds the steps that are still to come. -/
structure LockedBody (σ ι κ ω : Type) where
  enter : ι → Progress κ ω
  step : κ → σ → Progress κ ω × σ
  rank : κ → Nat
  rank_lt : ∀ {k s k' s'}, step k s = (.going k', s') → rank k' < rank k

inductive Phase (ι κ : Type) where
  | idle
  | waiting (i : ι) (k : κ)
  | inside (i : ι) (k : κ)

/-- A call that is over: its thread, the call, and the answer unless it panicked. -/
abbrev Ended (θ ι ω : Type) := θ × ι × Option ω

structure Locked (θ σ ι κ ω : Type) where
  shared : σ
  owner : Option θ
  poisoned : Bool
  phase : θ → Phase ι κ
  log : List (Ended θ ι ω)

namespace Locked

def start (s : σ) : Locked θ σ ι κ ω := ⟨s, none, false, fun _ => .idle, []⟩

variable [DecidableEq θ] (c : Locked θ σ ι κ ω) (t : θ)

def enters (p : Phase ι κ) : Locked θ σ ι κ ω := { c with phase := Function.update c.phase t p }

/-- The guard is dropped, by a return or by a panic. -/
def leave (i : ι) (o : Option ω) (s : σ) : Locked θ σ ι κ ω :=
  { c.enters t .idle with shared := s, owner := none, log := c.log ++ [(t, i, o)] }

@[simp] theorem phase_enters (p : Phase ι κ) (u : θ) :
    (c.enters t p).phase u = if u = t then p else c.phase u := Function.update_apply _ _ _ _

@[simp] theorem phase_leave (i : ι) (o : Option ω) (s : σ) (u : θ) :
    (c.leave t i o s).phase u = if u = t then .idle else c.phase u := c.phase_enters t .idle u

end Locked

namespace LockedBody

variable (B : LockedBody σ ι κ ω)

inductive Steps : κ → σ → κ → σ → Prop
  | refl (k : κ) (s : σ) : Steps k s k s
  | tail {k k' k'' : κ} {s s' s'' : σ} (head : Steps k s k' s')
      (last : B.step k' s' = (.going k'', s'')) : Steps k s k'' s''

/-- The whole call with nobody else at the state. -/
inductive Atomic : σ → ι → ω → σ → Prop
  | early {s : σ} {i : ι} {o : ω} (henter : B.enter i = .answered o) : Atomic s i o s
  | whole {s s' t : σ} {i : ι} {k k' : κ} {o : ω} (henter : B.enter i = .going k)
      (hsteps : B.Steps k s k' s') (hlast : B.step k' s' = (.answered o, t)) : Atomic s i o t

/-- The calls that are over one after another, each on what the one before left. -/
inductive Serial (torn : σ → σ → Prop) : σ → List (Ended θ ι ω) → σ → Prop
  | nil (s : σ) : Serial torn s [] s
  | answered {s u v : σ} {es : List (Ended θ ι ω)} {t : θ} {i : ι} {o : ω}
      (before : Serial torn s es u) (whole : B.Atomic u i o v) :
      Serial torn s (es ++ [(t, i, some o)]) v
  | unwound {s u v w : σ} {es : List (Ended θ ι ω)} {t : θ} {i : ι} {k k' : κ}
      (before : Serial torn s es u) (henter : B.enter i = .going k) (part : B.Steps k u k' v)
      (htorn : torn v w) : Serial torn s (es ++ [(t, i, none)]) w

variable [DecidableEq θ]

/-- One step of thread `t`. A panic inside the body leaves a torn state and poisons the
lock; a poisoned lock is taken all the same. -/
inductive Step (torn : σ → σ → Prop) (t : θ) :
    Locked θ σ ι κ ω → Locked θ σ ι κ ω → Prop
  | early {c : Locked θ σ ι κ ω} {i : ι} {o : ω} (hidle : c.phase t = .idle)
      (henter : B.enter i = .answered o) :
      Step torn t c { c with log := c.log ++ [(t, i, some o)] }
  | call {c : Locked θ σ ι κ ω} {i : ι} {k : κ} (hidle : c.phase t = .idle)
      (henter : B.enter i = .going k) : Step torn t c (c.enters t (.waiting i k))
  | lock {c : Locked θ σ ι κ ω} {i : ι} {k : κ} (hwait : c.phase t = .waiting i k)
      (hfree : c.owner = none) :
      Step torn t c { c.enters t (.inside i k) with owner := some t }
  | body {c : Locked θ σ ι κ ω} {i : ι} {k k' : κ} {s : σ} (hin : c.phase t = .inside i k)
      (hstep : B.step k c.shared = (.going k', s)) :
      Step torn t c { c.enters t (.inside i k') with shared := s }
  | answer {c : Locked θ σ ι κ ω} {i : ι} {k : κ} {o : ω} {s : σ} (hin : c.phase t = .inside i k)
      (hstep : B.step k c.shared = (.answered o, s)) : Step torn t c (c.leave t i (some o) s)
  | unwind {c : Locked θ σ ι κ ω} {i : ι} {k : κ} {s : σ} (hin : c.phase t = .inside i k)
      (htorn : torn c.shared s) : Step torn t c { c.leave t i none s with poisoned := true }

/-- The threads that step, in the order a scheduler picks them. -/
inductive Schedule (torn : σ → σ → Prop) :
    List θ → Locked θ σ ι κ ω → Locked θ σ ι κ ω → Prop
  | nil (c : Locked θ σ ι κ ω) : Schedule torn [] c c
  | cons {t : θ} {ts : List θ} {c c' c'' : Locked θ σ ι κ ω} (head : B.Step torn t c c')
      (tail : Schedule torn ts c' c'') : Schedule torn (t :: ts) c c''

/-- The state the next whole call finds: what is shared, or what its owner found. -/
def Guards (c : Locked θ σ ι κ ω) (s : σ) : Prop :=
  match c.owner with
  | none => c.shared = s
  | some t => ∃ i k k', c.phase t = .inside i k' ∧ B.enter i = .going k ∧
      B.Steps k s k' c.shared

structure Serialised (torn : σ → σ → Prop) (s₀ : σ) (c : Locked θ σ ι κ ω) : Prop where
  excludes : ∀ t i k, c.phase t = .inside i k → c.owner = some t
  entered : ∀ t i k, c.phase t = .waiting i k → B.enter i = .going k
  serial : ∃ s, B.Serial torn s₀ c.log s ∧ B.Guards c s

variable {B} {torn : σ → σ → Prop} {s₀ : σ} {c c' : Locked θ σ ι κ ω}

omit [DecidableEq θ] in
theorem Serialised.start (s₀ : σ) : B.Serialised torn s₀ (Locked.start s₀ : Locked θ σ ι κ ω) where
  excludes := by simp [Locked.start]
  entered := by simp [Locked.start]
  serial := ⟨s₀, .nil s₀, rfl⟩

omit [DecidableEq θ] in
/-- The owner has run its body alone since it took the lock. -/
theorem Serialised.alone (h : B.Serialised torn s₀ c) {t : θ} {i : ι} {k' : κ}
    (hin : c.phase t = .inside i k') :
    ∃ s k, B.Serial torn s₀ c.log s ∧ B.enter i = .going k ∧ B.Steps k s k' c.shared := by
  obtain ⟨s, hserial, hguards⟩ := h.serial
  have howner := h.excludes t i k' hin
  rw [Guards, howner] at hguards
  obtain ⟨j, k, l, hin', henter, hsteps⟩ := hguards
  rw [hin] at hin'
  cases hin'
  exact ⟨s, k, hserial, henter, hsteps⟩

theorem Guards.enters {s : σ} {t : θ} (h : B.Guards c s) (hout : ∀ i k, c.phase t ≠ .inside i k)
    (p : Phase ι κ) : B.Guards (c.enters t p) s := by
  change match c.owner with | none => _ | some u => _
  unfold Guards at h
  cases howner : c.owner with
  | none =>
    rw [howner] at h
    exact h
  | some u =>
    rw [howner] at h
    obtain ⟨i, k, k', hin, hrest⟩ := h
    have hne : u ≠ t := by
      rintro rfl
      exact hout i k' hin
    exact ⟨i, k, k', by rw [Locked.phase_enters, if_neg hne, hin], hrest⟩

/-- Only the phase of `t` has changed, and the owner as it says. -/
theorem Serialised.moved (h : B.Serialised torn s₀ c) {t : θ} {p : Phase ι κ}
    (hphase : ∀ u, c'.phase u = if u = t then p else c.phase u)
    (hwait : ∀ i k, p = .waiting i k → B.enter i = .going k)
    (hin : ∀ i k, p = .inside i k → c'.owner = some t)
    (hrest : ∀ u i k, u ≠ t → c.phase u = .inside i k → c'.owner = some u)
    (hserial : ∃ s, B.Serial torn s₀ c'.log s ∧ B.Guards c' s) : B.Serialised torn s₀ c' where
  excludes u i k hu := by
    rw [hphase] at hu
    by_cases hut : u = t
    · rw [if_pos hut] at hu
      rw [hut]
      exact hin i k hu
    · rw [if_neg hut] at hu
      exact hrest u i k hut hu
  entered u i k hu := by
    rw [hphase] at hu
    by_cases hut : u = t
    · rw [if_pos hut] at hu
      exact hwait i k hu
    · rw [if_neg hut] at hu
      exact h.entered u i k hu
  serial := hserial

theorem Serialised.step (h : B.Serialised torn s₀ c) {t : θ} (hstep : B.Step torn t c c') :
    B.Serialised torn s₀ c' := by
  -- nobody else is inside while `t` is
  have hother : ∀ {i k u j l}, c.phase t = .inside i k → u ≠ t → c.phase u ≠ .inside j l := by
    intro i k u j l ht hne hu
    exact hne (Option.some.inj ((h.excludes u j l hu).symm.trans (h.excludes t i k ht)))
  cases hstep with
  | early hidle henter =>
    obtain ⟨s, hserial, hguards⟩ := h.serial
    exact ⟨h.excludes, h.entered, s, hserial.answered (.early henter), hguards⟩
  | call hidle henter =>
    obtain ⟨s, hserial, hguards⟩ := h.serial
    refine h.moved (c.phase_enters t _) ?_ (by simp) (fun u i k _ hu => h.excludes u i k hu)
      ⟨s, hserial, hguards.enters (by simp [hidle]) _⟩
    intro i k heq
    cases heq
    exact henter
  | lock hwait hfree =>
    obtain ⟨s, hserial, hguards⟩ := h.serial
    rw [Guards, hfree] at hguards
    subst hguards
    refine h.moved (c.phase_enters t _) (by simp) (fun _ _ _ => rfl) ?_ ⟨_, hserial, ?_⟩
    · intro u i k _ hu
      rw [h.excludes u i k hu] at hfree
      cases hfree
    · exact ⟨_, _, _, by simp, h.entered _ _ _ hwait, .refl _ _⟩
  | body hin hstep =>
    obtain ⟨s, k, hserial, henter, hsteps⟩ := h.alone hin
    have howner := h.excludes t _ _ hin
    refine h.moved (c.phase_enters t _) (by simp) (fun _ _ _ => howner)
      (fun u i k hne hu => absurd hu (hother hin hne)) ⟨s, hserial, ?_⟩
    change match c.owner with | none => _ | some u => _
    rw [howner]
    exact ⟨_, k, _, by simp, henter, hsteps.tail hstep⟩
  | answer hin hstep =>
    obtain ⟨s, k, hserial, henter, hsteps⟩ := h.alone hin
    exact h.moved (c.phase_leave t _ _ _) (by simp) (by simp)
      (fun u i k hne hu => absurd hu (hother hin hne))
      ⟨_, hserial.answered (.whole henter hsteps hstep), rfl⟩
  | @unwind i k' v hin htorn =>
    obtain ⟨s, k, hserial, henter, hsteps⟩ := h.alone hin
    exact h.moved (c.phase_leave t i none v) (by simp) (by simp)
      (fun u i k hne hu => absurd hu (hother hin hne))
      ⟨_, hserial.unwound henter hsteps htorn, rfl⟩

theorem Serialised.schedule (h : B.Serialised torn s₀ c) {ts : List θ}
    (hrun : B.Schedule torn ts c c') : B.Serialised torn s₀ c' := by
  induction hrun with
  | nil c => exact h
  | cons head tail ih => exact ih (h.step head)

omit [DecidableEq θ] in
/-- Without panics the calls that are over are the run of any machine that makes each of
them whole. -/
theorem Serial.run_eq {τ : Type} {m : Machine τ ι ω} (put : σ → τ)
    (hm : ∀ {s i o t}, B.Atomic s i o t → m i (put s) = (o, put t)) {s t : σ}
    {es : List (Ended θ ι ω)} (h : B.Serial (fun _ _ => False) s es t) :
    es.map (fun e => e.2.2) = (m.run (es.map fun e => e.2.1) (put s)).1.map some ∧
      (m.run (es.map fun e => e.2.1) (put s)).2 = put t := by
  induction h with
  | nil => exact ⟨rfl, rfl⟩
  | answered before whole ih =>
    obtain ⟨hanswers, hstate⟩ := ih
    simp only [List.map_append, List.map_cons, List.map_nil, Machine.run_append_singleton, hstate,
      hm whole, hanswers, and_self]
  | unwound before henter part htorn ih => exact htorn.elim

omit [DecidableEq θ] in
/-- Where every whole call answers by `f` from any state of `I`, so does every call that is
over, whichever of them panicked. -/
theorem Serial.answers {I : σ → Prop} {f : ι → ω}
    (hwhole : ∀ {s i o t}, I s → B.Atomic s i o t → o = f i ∧ I t)
    (hpart : ∀ {s i k k' u v}, I s → B.enter i = .going k → B.Steps k s k' u → torn u v → I v)
    {s t : σ} {es : List (Ended θ ι ω)} (h : B.Serial torn s es t) (hs : I s) :
    I t ∧ ∀ u i o, (u, i, some o) ∈ es → o = f i := by
  induction h with
  | nil => exact ⟨hs, by simp⟩
  | answered before whole ih =>
    obtain ⟨hu, hanswers⟩ := ih
    obtain ⟨ho, hv⟩ := hwhole hu whole
    refine ⟨hv, ?_⟩
    intro u i o hmem
    rcases List.mem_append.mp hmem with hmem | hmem
    · exact hanswers u i o hmem
    · simp only [List.mem_singleton, Prod.mk.injEq, Option.some.injEq] at hmem
      obtain ⟨-, rfl, rfl⟩ := hmem
      exact ho
  | unwound before henter part htorn ih =>
    obtain ⟨hu, hanswers⟩ := ih
    refine ⟨hpart hu henter part htorn, ?_⟩
    intro u i o hmem
    rcases List.mem_append.mp hmem with hmem | hmem
    · exact hanswers u i o hmem
    · simp at hmem

/-! What a call needs to end. -/

omit [DecidableEq θ] in
theorem Steps.rank_le {k k' : κ} {s s' : σ} (h : B.Steps k s k' s') : B.rank k' ≤ B.rank k := by
  induction h with
  | refl => exact le_rfl
  | tail head last ih => exact (B.rank_lt last).le.trans ih

theorem Step.phase_of_ne {t u : θ} (h : B.Step torn t c c') (hne : u ≠ t) :
    c'.phase u = c.phase u := by
  cases h with
  | early hidle henter => rfl
  | call hidle henter => rw [Locked.phase_enters, if_neg hne]
  | lock hwait hfree => exact (c.phase_enters t _ u).trans (if_neg hne)
  | body hin hstep => exact (c.phase_enters t _ u).trans (if_neg hne)
  | answer hin hstep => rw [Locked.phase_leave, if_neg hne]
  | @unwind i k s hin htorn => exact (c.phase_leave t i none s u).trans (if_neg hne)

theorem Step.log_prefix {t : θ} (h : B.Step torn t c c') : c.log <+: c'.log := by
  cases h with
  | early hidle henter => exact List.prefix_append _ _
  | call hidle henter => exact List.prefix_rfl
  | lock hwait hfree => exact List.prefix_rfl
  | body hin hstep => exact List.prefix_rfl
  | answer hin hstep => exact List.prefix_append _ _
  | unwind hin htorn => exact List.prefix_append _ _

theorem Schedule.log_prefix {ts : List θ} (h : B.Schedule torn ts c c') : c.log <+: c'.log := by
  induction h with
  | nil c => exact List.prefix_rfl
  | cons head tail ih => exact head.log_prefix.trans ih

theorem Step.of_inside {t : θ} {i : ι} {k : κ} (h : B.Step torn t c c')
    (hin : c.phase t = .inside i k) :
    (∃ k', c'.phase t = .inside i k' ∧ B.rank k' < B.rank k) ∨
      ∃ o, c'.log = c.log ++ [(t, i, o)] := by
  cases h with
  | early hidle henter => simp [hin] at hidle
  | call hidle henter => simp [hin] at hidle
  | lock hwait hfree => simp [hin] at hwait
  | body hin' hstep =>
    rw [hin] at hin'
    cases hin'
    exact .inl ⟨_, by simp, B.rank_lt hstep⟩
  | answer hin' hstep =>
    rw [hin] at hin'
    cases hin'
    exact .inr ⟨_, rfl⟩
  | unwind hin' htorn =>
    rw [hin] at hin'
    cases hin'
    exact .inr ⟨_, rfl⟩

/-- Whatever the other threads do, a call inside its body is over after so many steps of its
own thread. -/
theorem Schedule.ends {t : θ} {ts : List θ} {i : ι} {k : κ} (h : B.Schedule torn ts c c')
    (hin : c.phase t = .inside i k) (hcount : B.rank k < ts.count t) :
    ∃ es o, c'.log = c.log ++ es ∧ (t, i, o) ∈ es := by
  induction h generalizing k with
  | nil c => simp at hcount
  | @cons u ts c c' c'' head tail ih =>
    by_cases hut : u = t
    · subst hut
      rw [List.count_cons_self] at hcount
      rcases head.of_inside hin with ⟨k', hin', hlt⟩ | ⟨o, hlog⟩
      · obtain ⟨es', hes'⟩ := head.log_prefix
        obtain ⟨es, o, hes, hmem⟩ := ih hin' (by omega)
        exact ⟨es' ++ es, o, by rw [hes, ← hes', List.append_assoc], List.mem_append_right _ hmem⟩
      · obtain ⟨es, hes⟩ := tail.log_prefix
        exact ⟨(u, i, o) :: es, o, by rw [← hes, hlog, List.append_assoc]; rfl, List.mem_cons_self⟩
    · rw [List.count_cons_of_ne hut] at hcount
      obtain ⟨es', hes'⟩ := head.log_prefix
      obtain ⟨es, o, hes, hmem⟩ := ih ((head.phase_of_ne (Ne.symm hut)).trans hin) hcount
      exact ⟨es' ++ es, o, by rw [hes, ← hes', List.append_assoc], List.mem_append_right _ hmem⟩

theorem Schedule.append {ts us : List θ} {c'' : Locked θ σ ι κ ω} (h : B.Schedule torn ts c c')
    (h' : B.Schedule torn us c' c'') : B.Schedule torn (ts ++ us) c c'' := by
  induction h with
  | nil c => exact h'
  | cons head tail ih => exact .cons head (ih h')

variable (B torn) in
/-- Scheduled alone, a thread inside its body answers and frees the lock. -/
theorem exists_answer {t : θ} {i : ι} {k : κ} (hin : c.phase t = .inside i k) :
    ∃ n c' o, B.Schedule torn (List.replicate n t) c c' ∧ c'.owner = none ∧
      c'.log = c.log ++ [(t, i, some o)] ∧ ∀ u, u ≠ t → c'.phase u = c.phase u := by
  obtain ⟨r, hr⟩ : ∃ r, r = B.rank k := ⟨_, rfl⟩
  induction r using Nat.strong_induction_on generalizing c k with
  | _ r ih =>
    subst hr
    cases hstep : B.step k c.shared with
    | mk p s =>
      cases p with
      | answered o =>
        have hlast : B.Step torn t c (c.leave t i (some o) s) := .answer hin hstep
        exact ⟨1, _, o, .cons hlast (.nil _), rfl, rfl, fun u hne => hlast.phase_of_ne hne⟩
      | going k' =>
        have hfirst : B.Step torn t c { c.enters t (.inside i k') with shared := s } :=
          .body hin hstep
        obtain ⟨n, c', o, hrest, howner, hlog, hphase⟩ :=
          @ih _ (B.rank_lt hstep) { c.enters t (.inside i k') with shared := s } k' (by simp) rfl
        refine ⟨n + 1, c', o, .cons hfirst hrest, howner, hlog, ?_⟩
        intro u hne
        rw [hphase u hne, hfirst.phase_of_ne hne]

variable (B torn) in
theorem exists_answer_of_free {t : θ} {i : ι} {k : κ} (hfree : c.owner = none)
    (hwait : c.phase t = .waiting i k) :
    ∃ n c' o, B.Schedule torn (List.replicate n t) c c' ∧ c'.log = c.log ++ [(t, i, some o)] := by
  obtain ⟨n, c', o, hrun, -, hlog, -⟩ := exists_answer B torn
    (show { c.enters t (.inside i k) with owner := some t }.phase t = .inside i k by simp)
  exact ⟨n + 1, c', o, .cons (.lock hwait hfree) hrun, hlog⟩

/-- A waiting call is answered by steps of its thread and of the owner alone, the lock
poisoned or not. -/
theorem Serialised.exists_answer (h : B.Serialised torn s₀ c) {t : θ} {i : ι} {k : κ}
    (hwait : c.phase t = .waiting i k) :
    ∃ ts c' es o, B.Schedule torn ts c c' ∧ (∀ u ∈ ts, u = t ∨ c.owner = some u) ∧
      c'.log = c.log ++ es ++ [(t, i, some o)] := by
  obtain ⟨s, -, hguards⟩ := h.serial
  cases howner : c.owner with
  | none =>
    obtain ⟨n, c', o, hrun, hlog⟩ := exists_answer_of_free B torn howner hwait
    exact ⟨_, c', [], o, hrun, fun u hu => .inl (List.eq_of_mem_replicate hu), by simp [hlog]⟩
  | some u =>
    rw [Guards, howner] at hguards
    obtain ⟨j, -, l, hin, -⟩ := hguards
    have hne : t ≠ u := by
      rintro rfl
      simp [hwait] at hin
    obtain ⟨m, d, p, hfirst, hfree, hlog, hphase⟩ := LockedBody.exists_answer B torn hin
    obtain ⟨n, c', o, hrun, hlog'⟩ :=
      exists_answer_of_free B torn hfree ((hphase t hne).trans hwait)
    refine ⟨_, c', [(u, j, some p)], o, hfirst.append hrun, ?_, by rw [hlog', hlog]⟩
    intro v hv
    rcases List.mem_append.mp hv with hv | hv
    · exact .inr (by rw [List.eq_of_mem_replicate hv])
    · exact .inl (List.eq_of_mem_replicate hv)

end LockedBody

end StdIo
