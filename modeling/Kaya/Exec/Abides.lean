import Kaya.Exec.Threads

/-! Threads whose operations keep to a contract, whatever the others do in between. -/

namespace Exec.Threads

variable {T A E O σ : Type} {R : O → Type} [DecidableEq T] [DecidableEq A]

/-- What is left of all activations keeps to the contract of its thread. -/
def Abides (C : T → Prog.Contract O R Unit) (c : Pool T A O R σ) : Prop :=
  ∀ t, ∀ f ∈ c.stack t, f.prog.Meets (C t) () fun _ _ => True

variable {S : Threads T A E O R σ} {C : T → Prog.Contract O R Unit} {c c' : Pool T A O R σ} {t : T}
  {o : O} {k : R o → Prog O R Unit} {held : List A} {fs : List (Frame A O R)} {e : Happening T E O}

omit [DecidableEq T] [DecidableEq A] in
/-- The next operation of a thread is one that its contract allows. -/
theorem Abides.pre (h : Abides C c) (hstack : c.stack t = ⟨.call o k, held⟩ :: fs) :
    (C t).pre () o := by
  have hframe := h t ⟨.call o k, held⟩ (by rw [hstack]; exact List.mem_cons_self)
  exact hframe.1

omit [DecidableEq A] in
theorem Abides.setStack (h : Abides C c) (hfs : ∀ f ∈ fs, f.prog.Meets (C t) () fun _ _ => True) :
    Abides C (c.setStack t fs) := by
  intro u f hf
  by_cases hu : u = t
  · subst hu
    exact hfs f (by simpa [Pool.setStack] using hf)
  · exact h u f (by simpa [Pool.setStack, hu] using hf)

omit [DecidableEq A] in
/-- After an operation, when its answer is one that the contract knows. -/
theorem Abides.answer (h : Abides C c) (hstack : c.stack t = ⟨.call o k, held⟩ :: fs) {r : R o}
    (hpost : (C t).post () o r ()) {held' : List A} : Abides C (c.setStack t (⟨k r, held'⟩ :: fs)) := by
  refine h.setStack fun f hf => ?_
  obtain rfl | hf := List.mem_cons.mp hf
  · have hframe := h t ⟨.call o k, held⟩ (by rw [hstack]; exact List.mem_cons_self)
    exact hframe.2 r () hpost
  · exact h t f (by rw [hstack]; exact List.mem_cons_of_mem _ hf)

/-- One step: what is entered keeps to the contract, and all answers are known to it. -/
theorem Abides.step (h : Abides C c) (hstep : S.Step c e c')
    (henter : ∀ t entry, e = .enter t entry → (S.program t entry).Meets (C t) () fun _ _ => True)
    (hsemaphore : ∀ t o r, S.kind o ≠ .other → (C t).post () o r ())
    (hother : ∀ t o r x, e = .perform t o → S.kind o = .other → S.act t o (c.value, c.shared) r x →
      (C t).post () o r ()) : Abides C c' := by
  cases hstep with
  | @enter t entry s' _ _ =>
    refine Abides.setStack (c := c) h fun f hf => ?_
    obtain rfl | hf := List.mem_cons.mp hf
    · exact henter t entry rfl
    · exact h t f hf
  | @leave t held fs _ hstack =>
    exact h.setStack fun f hf => h t f (by rw [hstack]; exact List.mem_cons_of_mem _ hf)
  | passeren _ hstack hkind =>
    exact Abides.answer (c := c) h hstack (hsemaphore _ _ _ (by simp [hkind]))
  | verhogen _ hstack hkind =>
    exact Abides.answer (c := c) h hstack (hsemaphore _ _ _ (by simp [hkind]))
  | exit _ _ _ => exact Abides.setStack (c := c) h fun f hf => absurd hf List.not_mem_nil
  | halt _ _ _ => exact h
  | other _ hstack hkind hact =>
    exact Abides.answer (c := c) h hstack (hother _ _ _ _ rfl hkind hact)

end Exec.Threads
