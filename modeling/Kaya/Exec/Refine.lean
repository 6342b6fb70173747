import Kaya.Exec.System
import Mathlib.Logic.Function.Basic

/-! Systems that implement others. -/

namespace Exec

namespace System

variable {σ ε : Type} {S : System σ ε} {s s' t : σ} {e : ε} {es fs : List ε}

/-- The events lead from one state to another, one after the other. -/
inductive Does (S : System σ ε) : σ → List ε → σ → Prop where
  | nil {s : σ} : Does S s [] s
  | cons {s s' t : σ} {e : ε} {es : List ε} : S.step s e s' → Does S s' es t →
      Does S s (e :: es) t

theorem Does.single (h : S.step s e s') : S.Does s [e] s' := .cons h .nil

theorem Does.append (h : S.Does s es s') (h' : S.Does s' fs t) : S.Does s (es ++ fs) t := by
  induction h with
  | nil => exact h'
  | cons hstep _ ih => exact .cons hstep (ih h')

end System

variable {σ ε τ α : Type} {C : System σ ε} {A : System τ α} {seen : σ → ε → σ → List α}
  {R : σ → τ → Prop} {s s' : σ} {t : τ} {l : List (ε × σ)}

/-- `A` can follow every step of `C` with what is seen of it, and `R` holds again. -/
structure Simulation (C : System σ ε) (A : System τ α) (seen : σ → ε → σ → List α)
    (R : σ → τ → Prop) : Prop where
  init : ∀ s, C.init s → ∃ t, A.init t ∧ R s t
  step : ∀ s e s' t, C.step s e s' → R s t → ∃ t', A.Does t (seen s e s') t' ∧ R s' t'

/-- What is seen of a piece of a run that begins in `s`. -/
def observed (seen : σ → ε → σ → List α) (s : σ) : List (ε × σ) → List α
  | [] => []
  | (e, s') :: l => seen s e s' ++ observed seen s' l

theorem mem_observed {a : α} (h : a ∈ observed seen s l) : ∃ s₁ e s₂, a ∈ seen s₁ e s₂ := by
  induction l generalizing s with
  | nil => exact absurd h List.not_mem_nil
  | cons x l ih =>
    obtain ⟨e, s₁⟩ := x
    rcases List.mem_append.mp h with hmem | hrest
    · exact ⟨s, e, s₁, hmem⟩
    · exact ih hrest

/-- What is seen of a run of `C` is a run of `A`. -/
theorem Simulation.path (h : Simulation C A seen R) (hpath : C.Path s l s') (hR : R s t) :
    ∃ t', A.Does t (observed seen s l) t' ∧ R s' t' := by
  induction hpath generalizing t with
  | nil => exact ⟨t, .nil, hR⟩
  | cons hstep _ ih =>
    obtain ⟨t₁, hdoes, hR₁⟩ := h.step _ _ _ _ hstep hR
    obtain ⟨t', hrest, hR'⟩ := ih hR₁
    exact ⟨t', hdoes.append hrest, hR'⟩

/-- A memory that holds under every key what was stored there last. -/
def memory (K β : Type) [DecidableEq K] : System (K → β) (K × β) where
  init _ := True
  step m e m' := m' = Function.update m e.1 e.2

end Exec
