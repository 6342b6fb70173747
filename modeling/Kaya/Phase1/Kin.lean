import Kaya.Forest
import Kaya.Types

open Links

namespace Kaya

/-- The children in `f` are those that name their parent, and the pcbs in `free` are
nobody's kin. -/
structure Kin (f : Forest Pid) (parent : Pid → PcbPtr) (free : List Pid) : Prop where
  child : ∀ p c, c ∈ f p ↔ parent c = .to p
  siblings : ∀ p, (f p).Nodup
  unborn : ∀ p ∈ free, f p = [] ∧ ∀ r, parent p ≠ .to r

namespace Kin

variable {f : Forest Pid} {parent : Pid → PcbPtr} {free rest : List Pid} {p prnt : Pid}

theorem alloc (h : Kin f parent (p :: rest)) : Kin f parent rest :=
  { h with unborn := fun x hx => h.unborn x (List.mem_cons_of_mem p hx) }

theorem discard (h : Kin f parent free) (hchildren : f p = []) (hparent : ∀ r, parent p ≠ .to r) :
    Kin f parent (p :: free) := by
  refine { h with unborn := fun x hx => ?_ }
  rcases List.mem_cons.mp hx with rfl | hx
  · exact ⟨hchildren, hparent⟩
  · exact h.unborn x hx

theorem adopt (h : Kin f parent free) (hprnt : prnt ∉ free) (hp : p ∉ free)
    (hparent : ∀ r, parent p ≠ .to r) :
    Kin (f.adopt prnt p) (Function.update parent p (.to prnt)) free := by
  have hfresh : ∀ r, p ∉ f r := fun r hr => hparent r ((h.child r p).mp hr)
  refine ⟨?_, ?_, ?_⟩
  · intro r c
    by_cases hr : r = prnt
    · subst hr
      by_cases hc : c = p
      · simp [Forest.adopt, hc]
      · simp [Forest.adopt, hc, h.child r c]
    · by_cases hc : c = p
      · subst hc
        simp [Forest.adopt, hr, hfresh r, Ne.symm hr]
      · simp [Forest.adopt, hr, hc, h.child r c]
  · intro r
    by_cases hr : r = prnt
    · subst hr
      simp [Forest.adopt, hfresh r, h.siblings r]
    · simp [Forest.adopt, hr, h.siblings r]
  · intro x hx
    have hxprnt : x ≠ prnt := fun heq => hprnt (heq ▸ hx)
    have hxp : x ≠ p := fun heq => hp (heq ▸ hx)
    simpa [Forest.adopt, hxprnt, hxp] using h.unborn x hx

theorem orphan (h : Kin f parent free) (hprnt : parent p = .to prnt) :
    Kin (f.detach prnt p) (Function.update parent p .null) free := by
  refine ⟨?_, ?_, ?_⟩
  · intro r c
    by_cases hc : c = p
    · subst hc
      simp only [Function.update_self, reduceCtorEq, iff_false]
      by_cases hr : r = prnt
      · subst hr
        simp [Forest.detach, (h.siblings r).mem_erase_iff]
      · have hother : c ∉ f r := by
          rw [h.child r c, hprnt]
          simpa using Ne.symm hr
        simpa [Forest.detach, hr] using hother
    · simp only [Function.update_of_ne hc, ← h.child r c]
      by_cases hr : r = prnt
      · subst hr
        simp [Forest.detach, List.mem_erase_of_ne hc]
      · simp [Forest.detach, hr]
  · intro r
    by_cases hr : r = prnt
    · subst hr
      simpa [Forest.detach] using (h.siblings r).erase p
    · simpa [Forest.detach, hr] using h.siblings r
  · intro x hx
    obtain ⟨hxc, hxp⟩ := h.unborn x hx
    refine ⟨List.eq_nil_of_subset_nil ?_, ?_⟩
    · exact hxc ▸ Forest.detach_subset x
    · intro r
      by_cases hxeq : x = p
      · simp [hxeq]
      · simpa [hxeq] using hxp r

end Kin

end Kaya
