import Mathlib.Tactic.Common

/-! Running stateful programs that can stop early. -/

namespace Exec

variable {ε σ τ α β : Type}

@[simp] theorem run_map (f : α → β) (x : EStateM ε σ α) (s : σ) :
    (f <$> x).run s = match x.run s with
      | .ok a s => .ok (f a) s
      | .error e s => .error e s := rfl

@[simp] theorem run_ite (c : Prop) [Decidable c] (x y : EStateM ε σ α) (s : σ) :
    (if c then x else y).run s = if c then x.run s else y.run s := by
  split <;> rfl

@[simp] theorem run_throw (e : ε) (s : σ) :
    (throw e : EStateM ε σ α).run s = .error e s := rfl

/-- Once its first part has a result, a program goes on with the rest. -/
theorem run_bind_ok {x : EStateM ε σ α} {f : α → EStateM ε σ β} {a : α} {s s' : σ}
    (h : x.run s = .ok a s') : (x >>= f).run s = (f a).run s' := by
  rw [EStateM.run_bind, h]

/-- A program whose first part stops has stopped. -/
theorem run_bind_error {x : EStateM ε σ α} {f : α → EStateM ε σ β} {e : ε} {s s' : σ}
    (h : x.run s = .error e s') : (x >>= f).run s = .error e s' := by
  rw [EStateM.run_bind, h]

theorem run_bind_get {f : σ → EStateM ε σ β} {s : σ} :
    (get >>= f).run s = (f s).run s := rfl

theorem run_bind_modify {g : σ → σ} {f : Unit → EStateM ε σ β} {s : σ} :
    (modify g >>= f).run s = (f ()).run (g s) := rfl

/-- Programs that run alike go on alike. -/
theorem run_bind_congr {x y : EStateM ε σ α} {f : α → EStateM ε σ β} {s t : σ}
    (h : x.run s = y.run t) : (x >>= f).run s = (y >>= f).run t := by
  rw [EStateM.run_bind, EStateM.run_bind, h]

/-- A program with a bound on its steps returns, once the bound is large enough. -/
def Returns (x : Nat → EStateM ε σ α) (s : σ) (a : α) (s' : σ) : Prop :=
  ∃ need, ∀ n ≥ need, (x n).run s = .ok a s'

theorem Returns.unique {x : Nat → EStateM ε σ α} {s s₁ s₂ : σ} {a₁ a₂ : α}
    (h₁ : Returns x s a₁ s₁) (h₂ : Returns x s a₂ s₂) : a₁ = a₂ ∧ s₁ = s₂ := by
  obtain ⟨n₁, h₁⟩ := h₁
  obtain ⟨n₂, h₂⟩ := h₂
  have heq := (h₁ (max n₁ n₂) (Nat.le_max_left _ _)).symm.trans
    (h₂ (max n₁ n₂) (Nat.le_max_right _ _))
  injection heq with ha hs
  exact ⟨ha, hs⟩

/-- Where the first program has a result, the second one has the same. -/
def Within (x y : EStateM ε σ α) : Prop := ∀ s a s', x.run s = .ok a s' → y.run s = .ok a s'

theorem Within.refl {x : EStateM ε σ α} : Within x x := fun _ _ _ h => h

theorem Within.throw {e : ε} {y : EStateM ε σ α} : Within (MonadExcept.throw e) y := by
  intro s a s' h
  rw [run_throw] at h
  exact absurd h nofun

theorem Within.bind {x y : EStateM ε σ α} {f g : α → EStateM ε σ β} (h : Within x y)
    (hf : ∀ a, Within (f a) (g a)) : Within (x >>= f) (y >>= g) := by
  intro s b t hrun
  rw [EStateM.run_bind] at hrun
  split at hrun
  · rename_i a s' hx
    rw [run_bind_ok (h s a s' hx)]
    exact hf a s' b t hrun
  · exact absurd hrun nofun

theorem Within.ite {c : Prop} [Decidable c] {x y x' y' : EStateM ε σ α} (h : Within x y)
    (h' : Within x' y') : Within (if c then x else x') (if c then y else y') := by
  split
  · exact h
  · exact h'

/-- Where a larger bound on the steps changes no result, one result is enough. -/
theorem Returns.of_within {x : Nat → EStateM ε σ α} {n : Nat} {s s' : σ} {a : α}
    (hx : ∀ m, Within (x m) (x (m + 1))) (h : (x n).run s = .ok a s') : Returns x s a s' := by
  refine ⟨n, fun m hm => ?_⟩
  induction hm with
  | refl => exact h
  | @step m _ ih => exact hx m s a s' ih

/-- Runs a program on a component of the state. -/
def zoom (get : σ → τ) (set : τ → σ → σ) (x : EStateM ε τ α) : EStateM ε σ α := fun s =>
  match x.run (get s) with
  | .ok a t => .ok a (set t s)
  | .error e t => .error e (set t s)

@[simp] theorem run_zoom (get : σ → τ) (set : τ → σ → σ) (x : EStateM ε τ α) (s : σ) :
    (zoom get set x).run s = match x.run (get s) with
      | .ok a t => .ok a (set t s)
      | .error e t => .error e (set t s) := rfl

end Exec
