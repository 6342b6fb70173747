import Mathlib.Tactic.Common

/-! Labelled transition systems and their runs. -/

namespace Exec

/-- States `σ` that change with events `ε`. -/
structure System (σ ε : Type) where
  init : σ → Prop
  step : σ → ε → σ → Prop

namespace System

variable {σ ε : Type} {S : System σ ε} {P : σ → ε → σ → Prop} {s s' : σ} {l : List (σ × ε)}

/-- A run with the state before each event, the last event first. -/
inductive Trace (S : System σ ε) : List (σ × ε) → σ → Prop where
  | init {s : σ} : S.init s → Trace S [] s
  | step {l : List (σ × ε)} {s s' : σ} {e : ε} : Trace S l s → S.step s e s' →
      Trace S ((s, e) :: l) s'

def Reachable (S : System σ ε) (s : σ) : Prop := ∃ l, S.Trace l s

/-- The runs of `S` whose steps all satisfy `P`. -/
def restrict (S : System σ ε) (P : σ → ε → σ → Prop) : System σ ε where
  init := S.init
  step s e s' := S.step s e s' ∧ P s e s'

theorem Reachable.init (h : S.init s) : S.Reachable s := ⟨[], .init h⟩

theorem Reachable.step {e : ε} (h : S.Reachable s) (hstep : S.step s e s') : S.Reachable s' := by
  obtain ⟨l, hl⟩ := h
  exact ⟨_, hl.step hstep⟩

/-- The runs of `S` in states of another kind, of which `f` shows what `S` is about. -/
def comap {τ : Type} (S : System σ ε) (f : τ → σ) : System τ ε where
  init t := S.init (f t)
  step t e t' := S.step (f t) e (f t')

theorem Trace.of_comap {τ : Type} {f : τ → σ} {t : τ} {l : List (τ × ε)}
    (h : (S.comap f).Trace l t) : S.Trace (l.map fun x => (f x.1, x.2)) (f t) := by
  induction h with
  | init hinit => exact .init hinit
  | step _ hstep ih => exact ih.step hstep

theorem Reachable.of_comap {τ : Type} {f : τ → σ} {t : τ} (h : (S.comap f).Reachable t) :
    S.Reachable (f t) := by
  obtain ⟨l, hl⟩ := h
  exact ⟨_, hl.of_comap⟩

/-- What holds at first and is kept by every step holds in every reachable state. -/
theorem Reachable.invariant {I : σ → Prop} (h : S.Reachable s) (hinit : ∀ s, S.init s → I s)
    (hstep : ∀ s e s', I s → S.step s e s' → I s') : I s := by
  obtain ⟨l, hl⟩ := h
  induction hl with
  | init hs => exact hinit _ hs
  | step _ hs ih => exact hstep _ _ _ ih hs

/-- A piece of a run: the events in order, each with the state it leads to. -/
inductive Path (S : System σ ε) : σ → List (ε × σ) → σ → Prop where
  | nil {s : σ} : Path S s [] s
  | cons {s s' t : σ} {e : ε} {l : List (ε × σ)} : S.step s e s' → Path S s' l t →
      Path S s ((e, s') :: l) t

theorem Path.of_comap {τ : Type} {f : τ → σ} {t t' : τ} {l : List (ε × τ)}
    (h : (S.comap f).Path t l t') : S.Path (f t) (l.map fun x => (x.1, f x.2)) (f t') := by
  induction h with
  | nil => exact .nil
  | cons hstep _ ih => exact .cons hstep ih

theorem Reachable.path {t : σ} {l : List (ε × σ)} (h : S.Reachable s) (hpath : S.Path s l t) :
    S.Reachable t := by
  induction hpath with
  | nil => exact h
  | cons hstep _ ih => exact ih (h.step hstep)

theorem Path.snoc {t : σ} {e : ε} {l : List (ε × σ)} (h : S.Path s l s') (hstep : S.step s' e t) :
    S.Path s (l ++ [(e, t)]) t := by
  induction h with
  | nil => exact .cons hstep .nil
  | cons hs _ ih => exact .cons hs (ih hstep)

theorem Reachable.exists_path (h : S.Reachable s) : ∃ t l, S.init t ∧ S.Path t l s := by
  obtain ⟨l, hl⟩ := h
  induction hl with
  | init hs => exact ⟨_, [], hs, .nil⟩
  | step _ hstep ih =>
    obtain ⟨t, l, ht, hpath⟩ := ih
    exact ⟨t, _, ht, hpath.snoc hstep⟩

theorem Trace.of_restrict (h : (S.restrict P).Trace l s) : S.Trace l s := by
  induction h with
  | init hs => exact .init hs
  | step _ hs ih => exact ih.step hs.1

theorem Reachable.of_restrict (h : (S.restrict P).Reachable s) : S.Reachable s :=
  ⟨h.choose, h.choose_spec.of_restrict⟩

end System

end Exec
