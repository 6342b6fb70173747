import Kaya.Exec.Prog
import Kaya.Exec.System
import Mathlib.Logic.Function.Basic

/-! Threads that run programs in any order and share semaphores. -/

namespace Exec

/-- What an operation does to the semaphores `A` and to the thread. -/
inductive Kind (A : Type) where
  | passeren (a : A)
  | verhogen (a : A)
  /-- The thread ends. -/
  | exit
  /-- Everything stops. -/
  | halt
  | other

/-- An activation of a program: what is left of it, and the mutexes it has taken
and not given back, the last one first. -/
structure Frame (A O : Type) (R : O → Type) where
  prog : Prog O R Unit
  held : List A

/-- Threads `T` that run the programs of entries `E`; other state is in `σ`. -/
structure Threads (T A E O : Type) (R : O → Type) (σ : Type) where
  kind : O → Kind A
  mutex : A → Bool
  program : T → E → Prog O R Unit
  /-- When an entry is possible, given what the thread is doing. -/
  enters : T → E → List (Frame A O R) → σ → σ → Prop
  /-- The operations of the kind `other`. -/
  act : T → (o : O) → (A → Int) × σ → R o → (A → Int) × σ → Prop

/-- The values of the semaphores and the threads that wait for them, and for each
thread its activations, the innermost first. -/
structure Pool (T A O : Type) (R : O → Type) (σ : Type) where
  value : A → Int
  queue : A → List T
  stack : T → List (Frame A O R)
  dead : T → Bool
  halted : Bool
  shared : σ

inductive Happening (T E O : Type) where
  | enter (t : T) (e : E)
  | leave (t : T)
  | perform (t : T) (o : O)

namespace Pool

variable {T A O σ : Type} {R : O → Type} [DecidableEq T] [DecidableEq A]

/-- The thread is blocked on a semaphore. -/
def Waits (c : Pool T A O R σ) (t : T) : Prop := ∃ a, t ∈ c.queue a

/-- The thread can go on. -/
structure Running (c : Pool T A O R σ) (t : T) : Prop where
  halted : c.halted = false
  dead : c.dead t = false
  ready : ¬ c.Waits t

def setStack (c : Pool T A O R σ) (t : T) (fs : List (Frame A O R)) : Pool T A O R σ :=
  { c with stack := Function.update c.stack t fs }

/-- The semaphores after a P. -/
def passeren (c : Pool T A O R σ) (t : T) (a : A) : Pool T A O R σ :=
  { c with
    value := Function.update c.value a (c.value a - 1)
    queue := if c.value a - 1 < 0 then Function.update c.queue a (c.queue a ++ [t]) else c.queue }

/-- The semaphores after a V. -/
def verhogen (c : Pool T A O R σ) (a : A) : Pool T A O R σ :=
  { c with
    value := Function.update c.value a (c.value a + 1)
    queue := if c.value a + 1 ≤ 0 then Function.update c.queue a (c.queue a).tail else c.queue }

/-- The thread has the mutex: it took it and does not wait for it any more. -/
def Holds (c : Pool T A O R σ) (t : T) (a : A) : Prop :=
  (∃ f ∈ c.stack t, a ∈ f.held) ∧ t ∉ c.queue a

instance (c : Pool T A O R σ) (t : T) (a : A) : Decidable (c.Holds t a) :=
  inferInstanceAs (Decidable (_ ∧ _))

section

omit [DecidableEq T]

variable {c : Pool T A O R σ} {t u : T} {a b : A}

theorem mem_queue_of_passeren (h : u ∈ (c.passeren t a).queue b) :
    u ∈ c.queue b ∨ u = t ∧ b = a := by
  simp only [passeren] at h
  split at h
  · by_cases hba : b = a
    · subst hba
      rw [Function.update_self] at h
      exact (List.mem_append.mp h).imp_right fun hmem => ⟨List.mem_singleton.mp hmem, rfl⟩
    · rw [Function.update_of_ne hba] at h
      exact .inl h
  · exact .inl h

theorem mem_queue_of_verhogen (h : u ∈ (c.verhogen a).queue b) : u ∈ c.queue b := by
  simp only [verhogen] at h
  split at h
  · by_cases hba : b = a
    · subst hba
      rw [Function.update_self] at h
      exact List.mem_of_mem_tail h
    · rwa [Function.update_of_ne hba] at h
  · exact h

end

end Pool

namespace Threads

variable {T A E O σ : Type} {R : O → Type} [DecidableEq T] [DecidableEq A]

/-- The mutexes of an activation after a P. -/
def take (S : Threads T A E O R σ) (a : A) (held : List A) : List A :=
  if S.mutex a then a :: held else held

/-- The mutexes of an activation after a V. -/
def give (S : Threads T A E O R σ) (a : A) (held : List A) : List A :=
  if S.mutex a then held.erase a else held

/-- One step of one thread. -/
inductive Step (S : Threads T A E O R σ) :
    Pool T A O R σ → Happening T E O → Pool T A O R σ → Prop where
  | enter {c : Pool T A O R σ} {t : T} {e : E} {s' : σ} : c.Running t →
      S.enters t e (c.stack t) c.shared s' →
      Step S c (.enter t e)
        { c.setStack t (⟨S.program t e, []⟩ :: c.stack t) with shared := s' }
  | leave {c : Pool T A O R σ} {t : T} {held : List A} {fs : List (Frame A O R)} : c.Running t →
      c.stack t = ⟨.ret (), held⟩ :: fs → Step S c (.leave t) (c.setStack t fs)
  | passeren {c : Pool T A O R σ} {t : T} {o : O} {k : R o → Prog O R Unit} {held : List A}
      {fs : List (Frame A O R)} {a : A} {r : R o} : c.Running t →
      c.stack t = ⟨.call o k, held⟩ :: fs → S.kind o = .passeren a →
      Step S c (.perform t o) ((c.passeren t a).setStack t (⟨k r, S.take a held⟩ :: fs))
  | verhogen {c : Pool T A O R σ} {t : T} {o : O} {k : R o → Prog O R Unit} {held : List A}
      {fs : List (Frame A O R)} {a : A} {r : R o} : c.Running t →
      c.stack t = ⟨.call o k, held⟩ :: fs → S.kind o = .verhogen a →
      Step S c (.perform t o) ((c.verhogen a).setStack t (⟨k r, S.give a held⟩ :: fs))
  | exit {c : Pool T A O R σ} {t : T} {o : O} {k : R o → Prog O R Unit} {held : List A}
      {fs : List (Frame A O R)} : c.Running t →
      c.stack t = ⟨.call o k, held⟩ :: fs → S.kind o = .exit →
      Step S c (.perform t o) { c.setStack t [] with dead := Function.update c.dead t true }
  | halt {c : Pool T A O R σ} {t : T} {o : O} {k : R o → Prog O R Unit} {held : List A}
      {fs : List (Frame A O R)} : c.Running t →
      c.stack t = ⟨.call o k, held⟩ :: fs → S.kind o = .halt →
      Step S c (.perform t o) { c with halted := true }
  | other {c : Pool T A O R σ} {t : T} {o : O} {k : R o → Prog O R Unit} {held : List A}
      {fs : List (Frame A O R)} {r : R o} {v' : A → Int} {s' : σ} : c.Running t →
      c.stack t = ⟨.call o k, held⟩ :: fs → S.kind o = .other →
      S.act t o (c.value, c.shared) r (v', s') →
      Step S c (.perform t o)
        { c.setStack t (⟨k r, held⟩ :: fs) with value := v', shared := s' }

/-- The runs of the threads from given states. -/
def system (S : Threads T A E O R σ) (init : Pool T A O R σ → Prop) :
    System (Pool T A O R σ) (Happening T E O) where
  init := init
  step := S.Step

/-- The threads, with entries only where the shared state allows them. -/
def guarded (S : Threads T A E O R σ) (P : T → E → σ → Prop) : Threads T A E O R σ :=
  { S with enters := fun t e fs s s' => S.enters t e fs s s' ∧ P t e s }

theorem Step.of_guarded {S : Threads T A E O R σ} {P : T → E → σ → Prop} {c c' : Pool T A O R σ}
    {y : Happening T E O} (h : (S.guarded P).Step c y c') :
    S.Step c y c' ∧ ∀ t e, y = .enter t e → P t e c.shared := by
  cases h with
  | enter hrun henters =>
    refine ⟨.enter hrun henters.1, fun t e heq => ?_⟩
    cases heq
    exact henters.2
  | leave hrun hstack => exact ⟨.leave hrun hstack, by simp⟩
  | passeren hrun hstack hkind => exact ⟨.passeren hrun hstack hkind, by simp⟩
  | verhogen hrun hstack hkind => exact ⟨.verhogen hrun hstack hkind, by simp⟩
  | exit hrun hstack hkind => exact ⟨.exit hrun hstack hkind, by simp⟩
  | halt hrun hstack hkind => exact ⟨.halt hrun hstack hkind, by simp⟩
  | other hrun hstack hkind hact => exact ⟨.other hrun hstack hkind hact, by simp⟩

end Threads

end Exec
