import Mathlib.Tactic.Common

/-! Programs that act on their surroundings through operations. -/

namespace Exec

/-- A program that performs operations `O`, each of which answers in `R`. -/
inductive Prog (O : Type) (R : O → Type) (α : Type) : Type where
  | ret (a : α)
  | call (o : O) (k : R o → Prog O R α)

namespace Prog

variable {O : Type} {R : O → Type} {α β γ : Type}

def bind (p : Prog O R α) (f : α → Prog O R β) : Prog O R β :=
  match p with
  | .ret a => f a
  | .call o k => .call o fun r => (k r).bind f

instance : Monad (Prog O R) where
  pure := .ret
  bind := bind

/-- The program of a single operation. -/
def perform (o : O) : Prog O R (R o) := .call o .ret

/-- Runs a program only if a condition holds. -/
def when (c : Prop) [Decidable c] (p : Prog O R Unit) : Prog O R Unit :=
  if c then p else pure ()

@[simp] theorem pure_eq_ret (a : α) : (pure a : Prog O R α) = .ret a := rfl

@[simp] theorem ret_bind (a : α) (f : α → Prog O R β) : (Prog.ret a >>= f) = f a := rfl

@[simp] theorem call_bind (o : O) (k : R o → Prog O R α) (f : α → Prog O R β) :
    (Prog.call o k >>= f) = .call o fun r => k r >>= f := rfl

@[simp] theorem perform_bind (o : O) (f : R o → Prog O R β) : (perform o >>= f) = .call o f := rfl

/-- What a program may do in a logical state `g : Γ`, and what it knows when an
operation has answered. -/
structure Contract (O : Type) (R : O → Type) (Γ : Type) where
  pre : Γ → O → Prop
  post : Γ → (o : O) → R o → Γ → Prop

variable {Γ : Type} {C : Contract O R Γ} {g : Γ} {Q Q' : Γ → α → Prop}

/-- Started in `g`, the program only does what the contract allows and ends with
a result in `Q`. -/
def Meets (C : Contract O R Γ) (g : Γ) (p : Prog O R α) (Q : Γ → α → Prop) : Prop :=
  match p with
  | .ret a => Q g a
  | .call o k => C.pre g o ∧ ∀ r g', C.post g o r g' → (k r).Meets C g' Q

/-- Two programs one after the other. -/
theorem Meets.bind {p : Prog O R α} {f : α → Prog O R β} {Q' : Γ → β → Prop}
    (h : p.Meets C g Q) (hf : ∀ g a, Q g a → (f a).Meets C g Q') : (p >>= f).Meets C g Q' := by
  induction p generalizing g with
  | ret a => exact hf g a h
  | call o k ih => exact ⟨h.1, fun r g' hpost => ih r (h.2 r g' hpost)⟩

theorem Meets.mono {p : Prog O R α} (h : p.Meets C g Q) (hQ : ∀ g a, Q g a → Q' g a) :
    p.Meets C g Q' := by
  induction p generalizing g with
  | ret a => exact hQ g a h
  | call o k ih => exact ⟨h.1, fun r g' hpost => ih r (h.2 r g' hpost)⟩

/-- A contract that allows more and tells as much. -/
theorem Meets.weaken {C' : Contract O R Γ} {p : Prog O R α} (h : p.Meets C g Q)
    (hpre : ∀ g o, C.pre g o → C'.pre g o)
    (hpost : ∀ g o r g', C'.post g o r g' → C.post g o r g') : p.Meets C' g Q := by
  induction p generalizing g with
  | ret a => exact h
  | call o k ih => exact ⟨hpre g o h.1, fun r g' hr => ih r (h.2 r g' (hpost g o r g' hr))⟩

end Prog

end Exec
