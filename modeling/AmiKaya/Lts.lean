import Mathlib.Tactic.Common

/-! Finite runs of a labelled transition relation, invariants, and history variables. -/
namespace Lts

variable {σ ε γ δ : Type}

/-- A finite run, with the labels of its steps. -/
inductive Run (step : σ → ε → σ → Prop) : σ → List ε → σ → Prop
  | refl {s} : Run step s [] s
  | stepL {s e t es u} : step s e t → Run step t es u → Run step s (e :: es) u

variable {step step' : σ → ε → σ → Prop} {s t u : σ} {e : ε} {es fs : List ε}

theorem Run.single (h : step s e t) : Run step s [e] t := .stepL h .refl

theorem Run.append (h : Run step s es t) (h' : Run step t fs u) : Run step s (es ++ fs) u := by
  induction h with
  | refl => exact h'
  | stepL hs _ ih => exact .stepL hs (ih h')

theorem Run.mono (hm : ∀ s e t, step s e t → step' s e t) (h : Run step s es t) :
    Run step' s es t := by
  induction h with
  | refl => exact .refl
  | stepL hs _ ih => exact .stepL (hm _ _ _ hs) ih

theorem Run.labelled (h : Run step s es t) : Run (fun s e t => step s e t ∧ e ∈ es) s es t := by
  induction h with
  | refl => exact .refl
  | stepL hs _ ih =>
    exact .stepL ⟨hs, List.mem_cons_self⟩ (ih.mono fun _ _ _ hs => ⟨hs.1, List.mem_cons_of_mem _ hs.2⟩)

/-- What every step preserves, every run preserves. -/
theorem Run.inv {I : σ → Prop} (hI : ∀ s e t, step s e t → I s → I t)
    (h : Run step s es t) (hs : I s) : I t := by
  induction h with
  | refl => exact hs
  | stepL hst _ ih => exact ih (hI _ _ _ hst hs)

/-- When `P` is exactly what keeps `I` in one step, it is exactly what keeps it in a run. Every step
preserves `J`. -/
theorem Run.keeps_iff {I J : σ → Prop} {P : σ → ε → σ → Prop}
    (hJ : ∀ s e t, step s e t → J s → J t)
    (hI : ∀ s e t, step s e t → J s → I s → (I t ↔ P s e t)) (hj : J s) (hs : I s) :
    Run (fun s e t => step s e t ∧ I t) s es t ↔ Run (fun s e t => step s e t ∧ P s e t) s es t := by
  constructor
  · intro h
    induction h with
    | refl => exact .refl
    | stepL hst _ ih =>
      exact .stepL ⟨hst.1, (hI _ _ _ hst.1 hj hs).mp hst.2⟩ (ih (hJ _ _ _ hst.1 hj) hst.2)
  · intro h
    induction h with
    | refl => exact .refl
    | stepL hst _ ih =>
      have ht := (hI _ _ _ hst.1 hj hs).mpr hst.2
      exact .stepL ⟨hst.1, ht⟩ (ih (hJ _ _ _ hst.1 hj) ht)

/-- A history variable: it follows the run and restricts nothing. -/
def withHistory (step : σ → ε → σ → Prop) (note : σ → ε → σ → γ → γ) :
    σ × γ → ε → σ × γ → Prop :=
  fun s e t => step s.1 e t.1 ∧ t.2 = note s.1 e t.1 s.2

theorem Run.erase {note : σ → ε → σ → γ → γ} {s t : σ × γ}
    (h : Run (withHistory step note) s es t) : Run step s.1 es t.1 := by
  induction h with
  | refl => exact .refl
  | stepL hs _ ih => exact .stepL hs.1 ih

/-- An invariant of the state and its history. -/
theorem Run.inv_history {note : σ → ε → σ → γ → γ} {I : σ → γ → Prop} {g g' : γ}
    (hI : ∀ s e t g, step s e t → I s g → I t (note s e t g))
    (h : Run (withHistory step note) (s, g) es (t, g')) (hs : I s g) : I t g' := by
  refine h.inv (I := fun s => I s.1 s.2) ?_ hs
  intro s e t hst hi
  rw [hst.2]
  exact hI _ _ _ _ hst.1 hi

theorem Run.exists_history (note : σ → ε → σ → γ → γ) (h : Run step s es t) (g : γ) :
    ∃ g', Run (withHistory step note) (s, g) es (t, g') := by
  induction h generalizing g with
  | refl => exact ⟨g, .refl⟩
  | @stepL s e t es u hs _ ih =>
    obtain ⟨g', hg⟩ := ih (note s e t g)
    exact ⟨g', .stepL ⟨hs, rfl⟩ hg⟩

/-- Execution of a list of labels by a step function. -/
def exec (f : σ → ε → Except δ σ) (s : σ) : List ε → Except δ σ
  | [] => .ok s
  | e :: es => match f s e with
    | .ok t => exec f t es
    | .error d => .error d

theorem run_of_exec {f : σ → ε → Except δ σ} (h : exec f s es = .ok t) :
    Run (fun s e t => f s e = .ok t) s es t := by
  induction es generalizing s with
  | nil =>
    cases h
    exact .refl
  | cons e es ih =>
    simp only [exec] at h
    split at h
    · exact .stepL ‹_› (ih h)
    · cases h

/-- Execution together with a history variable. -/
def execWith (f : σ → ε → Except δ σ) (note : σ → ε → σ → γ → γ) (s : σ × γ) (e : ε) :
    Except δ (σ × γ) :=
  match f s.1 e with
  | .ok t => .ok (t, note s.1 e t s.2)
  | .error d => .error d

theorem step_of_execWith {f : σ → ε → Except δ σ} {note : σ → ε → σ → γ → γ} {s t : σ × γ}
    (hf : ∀ s e t, f s e = .ok t → step s e t) (h : execWith f note s e = .ok t) :
    withHistory step note s e t := by
  unfold execWith at h
  split at h
  · next u hu =>
    cases h
    exact ⟨hf _ _ _ hu, rfl⟩
  · cases h

theorem run_of_execWith {f : σ → ε → Except δ σ} {note : σ → ε → σ → γ → γ} {s t : σ × γ}
    (hf : ∀ s e t, f s e = .ok t → step s e t) (h : exec (execWith f note) s es = .ok t) :
    Run (withHistory step note) s es t :=
  (run_of_exec h).mono fun _ _ _ => step_of_execWith hf

/-- A step function under a condition on its steps. -/
def guarded (p : σ → ε → σ → Prop) [∀ s e t, Decidable (p s e t)] (d : δ) (f : σ → ε → Except δ σ)
    (s : σ) (e : ε) : Except δ σ :=
  match f s e with
  | .ok t => if p s e t then .ok t else .error d
  | .error d => .error d

theorem of_guarded {p : σ → ε → σ → Prop} [∀ s e t, Decidable (p s e t)] {d : δ}
    {f : σ → ε → Except δ σ} (h : guarded p d f s e = .ok t) : f s e = .ok t ∧ p s e t := by
  unfold guarded at h
  split at h
  · split at h
    · cases h
      exact ⟨‹_›, ‹_›⟩
    · cases h
  · cases h

/-- A run of guarded steps with a history variable. -/
theorem run_of_guarded {f : σ → ε → Except δ σ} {note : σ → ε → σ → γ → γ} {d : δ}
    {p : σ × γ → ε → σ × γ → Prop} [∀ s e t, Decidable (p s e t)] {s t : σ × γ}
    (hf : ∀ s e t, f s e = .ok t → step s e t)
    (h : exec (guarded p d (execWith f note)) s es = .ok t) :
    Run (fun s e t => withHistory step note s e t ∧ p s e t) s es t := by
  refine (run_of_exec h).mono fun s e t ht => ?_
  obtain ⟨ht, hp⟩ := of_guarded ht
  exact ⟨step_of_execWith hf ht, hp⟩

/-- A test of the result of an execution. -/
def passes (p : σ → Bool) : Except δ σ → Bool
  | .ok s => p s
  | .error _ => false

theorem exists_of_passes {p : σ → Bool} {x : Except δ σ} (h : passes p x = true) :
    ∃ s, x = .ok s ∧ p s = true := by
  cases x with
  | ok s => exact ⟨s, rfl, h⟩
  | error d => cases h

end Lts
