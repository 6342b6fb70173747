import Kaya.Exec.Run
import Kaya.Links.Segment

/-! Stacks threaded through a table of links, as part of a larger state. -/

namespace Links

variable {ι ε σ : Type} [DecidableEq ι]

/-- A stack inside a state: its links, its top, and how both are written. -/
structure StackIn (σ ι : Type) where
  next : σ → ι → Ptr ι
  top : σ → Ptr ι
  put : (ι → Ptr ι) → Ptr ι → σ → σ
  next_put : ∀ n t s, next (put n t s) = n
  top_put : ∀ n t s, top (put n t s) = t
  put_put : ∀ n t n' t' s, put n' t' (put n t s) = put n' t' s
  put_self : ∀ s, put (next s) (top s) s = s

/-- Pushing the entries of `l` one after the other stacks them up; the links of the
others stay. -/
theorem StackIn.run_forM (S : StackIn σ ι) (push : ι → EStateM ε σ Unit)
    (hpush : ∀ x s, (push x).run s =
      .ok () (S.put (Function.update (S.next s) x (S.top s)) (.to x) s))
    {s : σ} {l f : List ι} (hl : l.Nodup) (hdisj : ∀ x ∈ l, x ∉ f)
    (hf : Segment (S.next s) (S.top s) f .null) :
    ∃ next top, (l.forM push).run s = .ok () (S.put next top s) ∧
      Segment next top (l.reverse ++ f) .null ∧ ∀ y ∉ l, next y = S.next s y := by
  induction l generalizing s f with
  | nil => exact ⟨S.next s, S.top s, by rw [S.put_self]; rfl, hf, fun _ _ => rfl⟩
  | cons x l ih =>
    obtain ⟨hxl, hl⟩ := List.nodup_cons.mp hl
    generalize hs1 : S.put (Function.update (S.next s) x (S.top s)) (.to x) s = s1
    have hseg : Segment (S.next s1) (S.top s1) (x :: f) .null := by
      rw [← hs1, S.next_put, S.top_put]
      refine ⟨rfl, ?_⟩
      rw [Function.update_self]
      refine hf.congr fun y hy => Function.update_of_ne ?_ _ _
      rintro rfl
      exact hdisj y List.mem_cons_self hy
    obtain ⟨next, top, hrun, hstack, hothers⟩ := ih hl (s := s1) (f := x :: f) (by
      intro y hy hmem
      rcases List.mem_cons.mp hmem with rfl | hmem
      · exact hxl hy
      · exact hdisj y (List.mem_cons_of_mem _ hy) hmem) hseg
    refine ⟨next, top, ?_, by simpa using hstack, fun y hy => ?_⟩
    · have hfirst : (push x).run s = .ok () s1 := by rw [hpush, hs1]
      rw [← hs1, S.put_put, hs1] at hrun
      exact (Exec.run_bind_ok hfirst).trans hrun
    · rw [List.mem_cons, not_or] at hy
      rw [hothers y hy.2, ← hs1, S.next_put, Function.update_of_ne hy.1]

end Links
