import Mathlib.Data.List.Basic
import Mathlib.Logic.Function.Basic
import Mathlib.Logic.Relation
import Mathlib.Order.WellFounded
import Mathlib.Tactic.Common

/-- A family relation: the children of every node, in order. -/
abbrev Forest (ι : Type) : Type := ι → List ι

namespace Forest

variable {ι : Type} {f : Forest ι} {p c x : ι}

/-- No node is its own ancestor, and going down always ends. -/
def Acyclic (f : Forest ι) : Prop := WellFounded fun c p => c ∈ f p

/-- `x` is `p` or a descendant of `p`. -/
def Descends (f : Forest ι) (p x : ι) : Prop := Relation.ReflTransGen (fun p c => c ∈ f p) p x

theorem Descends.refl : Descends f p p := Relation.ReflTransGen.refl

theorem Descends.of_child (hc : c ∈ f p) (hx : Descends f c x) : Descends f p x :=
  Relation.ReflTransGen.head hc hx

theorem descends_iff : Descends f p x ↔ x = p ∨ ∃ c ∈ f p, Descends f c x := by
  constructor
  · intro h
    rcases Relation.ReflTransGen.cases_head h with rfl | ⟨c, hc, hx⟩
    · exact Or.inl rfl
    · exact Or.inr ⟨c, hc, hx⟩
  · rintro (rfl | ⟨c, hc, hx⟩)
    · exact Descends.refl
    · exact Descends.of_child hc hx

theorem descends_of_childless (h : f p = []) : Descends f p x ↔ x = p := by
  rw [descends_iff, h]
  simp

/-- No node descends from one of its children. -/
theorem Acyclic.not_descends (hf : Acyclic f) (hc : c ∈ f p) : ¬ Descends f c p := by
  intro hd
  have hstrict : Relation.TransGen (fun c p => c ∈ f p) p p := by
    have hdown : Relation.TransGen (fun p c => c ∈ f p) p p := Relation.TransGen.head' hc hd
    exact Relation.transGen_swap.mp hdown
  exact hf.transGen.irrefl.irrefl p hstrict

theorem Acyclic.mono {f' : Forest ι} (hf : Acyclic f) (hsub : ∀ p, f' p ⊆ f p) : Acyclic f' :=
  Subrelation.wf (fun {_ _} hc => hsub _ hc) hf

/-- A forest with fewer children has fewer descendants. -/
theorem Descends.mono {f' : Forest ι} (h : Descends f' p x) (hsub : ∀ p, f' p ⊆ f p) :
    Descends f p x :=
  Relation.ReflTransGen.mono (fun p _ hc => hsub p hc) _ _ h

variable [DecidableEq ι]

/-- `c` becomes the first child of `p`. -/
def adopt (f : Forest ι) (p c : ι) : Forest ι := Function.update f p (c :: f p)

theorem subset_adopt (q : ι) : f q ⊆ f.adopt p c q := by
  unfold Forest.adopt
  by_cases hq : q = p
  · subst hq
    rw [Function.update_self]
    exact List.subset_cons_self c (f q)
  · rw [Function.update_of_ne hq]
    exact List.Subset.refl _

/-- A node that is adopted by none of its descendants closes no cycle. -/
theorem Acyclic.adopt (hf : Acyclic f) (hcp : ¬ Descends f c p) : Acyclic (f.adopt p c) := by
  -- below `c` nothing changes
  have hbelow : ∀ x, Descends f c x → Acc (fun c' p' => c' ∈ f.adopt p c p') x := by
    intro x
    induction x using hf.induction with
    | h x ih =>
      intro hx
      refine Acc.intro x fun y hy => ?_
      have hxp : x ≠ p := fun heq => hcp (heq ▸ hx)
      rw [Forest.adopt, Function.update_of_ne hxp] at hy
      exact ih y hy (Relation.ReflTransGen.tail hx hy)
  refine ⟨fun x => ?_⟩
  induction x using hf.induction with
  | h x ih =>
    refine Acc.intro x fun y hy => ?_
    by_cases hxp : x = p
    · subst hxp
      simp only [Forest.adopt, Function.update_self, List.mem_cons] at hy
      rcases hy with rfl | hy
      · exact hbelow y Descends.refl
      · exact ih y hy
    · simp only [Forest.adopt, Function.update_of_ne hxp] at hy
      exact ih y hy

/-- A node that is adopted by one of its descendants closes a cycle. -/
theorem Descends.not_acyclic_adopt (hd : Descends f c p) : ¬ Acyclic (f.adopt p c) := by
  intro hf
  have hc : c ∈ f.adopt p c p := by simp [Forest.adopt]
  exact hf.not_descends hc (hd.mono subset_adopt)

/-- `c` is no longer a child of `p`. -/
def detach (f : Forest ι) (p c : ι) : Forest ι := Function.update f p ((f p).erase c)

theorem detach_subset (q : ι) : f.detach p c q ⊆ f q := by
  unfold Forest.detach
  by_cases hq : q = p
  · subst hq
    rw [Function.update_self]
    exact List.erase_subset
  · rw [Function.update_of_ne hq]
    exact List.Subset.refl _

/-- What lies below a child does not depend on the child lists above it. -/
theorem descends_detach_iff (hf : Acyclic f) (hc : c ∈ f p) :
    Descends (f.detach p c) c x ↔ Descends f c x := by
  refine ⟨fun h => h.mono detach_subset, fun h => ?_⟩
  induction h with
  | refl => exact Descends.refl
  | tail hd hx ih =>
    rename_i y z
    refine Relation.ReflTransGen.tail ih ?_
    have hyp : y ≠ p := by
      rintro rfl
      exact hf.not_descends hc hd
    rwa [Forest.detach, Function.update_of_ne hyp]

/-- The forest without the nodes of `d`. -/
def without (f : Forest ι) (d : List ι) : Forest ι := fun p => (f p).filter (· ∉ d)

theorem without_subset (d : List ι) (q : ι) : f.without d q ⊆ f q := List.filter_subset_self _

theorem mem_without {d : List ι} : c ∈ f.without d p ↔ c ∈ f p ∧ c ∉ d := by
  simp [without]

theorem without_without (d d' : List ι) : (f.without d).without d' = f.without (d ++ d') := by
  funext p
  simp only [without, List.filter_filter, List.mem_append, not_or]
  congr 1
  funext x
  simp only [decide_not, Bool.decide_and]
  exact Bool.and_comm _ _

/-- The descendants of `p` are those of one of its children and what is left
below `p` without them. -/
theorem descends_without_iff {d : List ι} (hc : c ∈ f p)
    (hd : ∀ y, y ∈ d ↔ Descends f c y) :
    Descends f p x ↔ x ∈ d ∨ Descends (f.without d) p x := by
  constructor
  · intro h
    induction h with
    | refl => exact Or.inr Descends.refl
    | tail hdown hz ih =>
      rename_i y z
      rcases ih with hy | hy
      · exact Or.inl ((hd z).mpr (Relation.ReflTransGen.tail ((hd y).mp hy) hz))
      · by_cases hzd : z ∈ d
        · exact Or.inl hzd
        · exact Or.inr (Relation.ReflTransGen.tail hy (mem_without.mpr ⟨hz, hzd⟩))
  · rintro (hx | hx)
    · exact Descends.of_child hc ((hd x).mp hx)
    · exact hx.mono (without_subset d)

/-- Whatever survives below a node that is not in `d` is not in `d`. -/
theorem Descends.not_mem_of_without {d : List ι} (h : Descends (f.without d) p x) (hp : p ∉ d) :
    x ∉ d := by
  induction h with
  | refl => exact hp
  | tail _ hz _ => exact (mem_without.mp hz).2

end Forest
