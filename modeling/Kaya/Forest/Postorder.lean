import Kaya.Forest
import Mathlib.Data.Fintype.Card
import Mathlib.Data.List.Nodup

namespace Forest

variable {ι : Type} [DecidableEq ι]

/-- `Postorder f p d`: taking first children off `p` one by one, each with its
own descendants, and then `p` itself, lists `d`. -/
inductive Postorder : Forest ι → ι → List ι → Prop where
  | leaf {f : Forest ι} {p : ι} : f p = [] → Postorder f p [p]
  | node {f : Forest ι} {p c : ι} {rest d d' : List ι} : f p = c :: rest →
      Postorder (f.detach p c) c d → Postorder ((f.detach p c).without d) p d' →
      Postorder f p (d ++ d')

variable {f : Forest ι} {p : ι} {d : List ι}

theorem detach_without {c : ι} (hc : c ∈ d) : (f.detach p c).without d = f.without d := by
  funext x
  unfold without detach
  by_cases hx : x = p
  · subst hx
    rw [Function.update_self]
    induction f x with
    | nil => rfl
    | cons y l ih =>
      by_cases hyc : y = c
      · subst hyc
        simp [hc]
      · rw [List.erase_cons_tail (by simpa using hyc)]
        simp only [List.filter_cons, ih]
  · rw [Function.update_of_ne hx]

/-- The listing holds `p` and its descendants. -/
theorem Postorder.mem_iff (h : Postorder f p d) (hf : f.Acyclic) (x : ι) :
    x ∈ d ↔ f.Descends p x := by
  induction h generalizing x with
  | leaf hleaf => rw [List.mem_singleton, descends_of_childless hleaf]
  | @node f p c rest d d' hc _ _ ih ih' =>
    have hmem : c ∈ f p := by simp [hc]
    have hsub : (f.detach p c).Acyclic := hf.mono detach_subset
    have hd : ∀ y, y ∈ d ↔ f.Descends c y := by
      intro y
      rw [ih hsub y, descends_detach_iff hf hmem]
    have hcd : c ∈ d := (hd c).mpr Descends.refl
    rw [detach_without hcd] at ih'
    rw [List.mem_append, ih' (hf.mono (without_subset d)) x, descends_without_iff hmem hd]

theorem Postorder.nodup (h : Postorder f p d) (hf : f.Acyclic) : d.Nodup := by
  induction h with
  | leaf _ => exact List.nodup_singleton _
  | @node f p c rest d d' hc hd hd' ih ih' =>
    have hmem : c ∈ f p := by simp [hc]
    have hsub : (f.detach p c).Acyclic := hf.mono detach_subset
    have hsub' : ((f.detach p c).without d).Acyclic := hsub.mono (without_subset d)
    refine List.nodup_append.mpr ⟨ih hsub, ih' hsub', ?_⟩
    rintro x hx y hy rfl
    have hp : p ∉ d := by
      rw [hd.mem_iff hsub, descends_detach_iff hf hmem]
      exact hf.not_descends hmem
    exact ((hd'.mem_iff hsub' x).mp hy).not_mem_of_without hp hx

/-- Every node of a finite acyclic forest has a listing. -/
theorem Acyclic.exists_postorder [Fintype ι] (hf : f.Acyclic) (p : ι) :
    ∃ d, Postorder f p d := by
  classical
  generalize hn : (Finset.univ.filter (f.Descends p)).card = n
  induction n using Nat.strong_induction_on generalizing f p with
  | _ n ih =>
    cases hc : f p with
    | nil => exact ⟨[p], Postorder.leaf hc⟩
    | cons c rest =>
      have hmem : c ∈ f p := by simp [hc]
      have hsub : (f.detach p c).Acyclic := hf.mono detach_subset
      have hsmaller : (Finset.univ.filter ((f.detach p c).Descends c)).card < n := by
        rw [← hn]
        refine Finset.card_lt_card ⟨?_, ?_⟩
        · intro x hx
          simp only [Finset.mem_filter, Finset.mem_univ, true_and] at hx ⊢
          exact Descends.of_child hmem ((descends_detach_iff hf hmem).mp hx)
        · intro hle
          have hp := hle (x := p) (by simp [Descends.refl])
          simp only [Finset.mem_filter, Finset.mem_univ, true_and] at hp
          exact hf.not_descends hmem ((descends_detach_iff hf hmem).mp hp)
      obtain ⟨d, hd⟩ := ih _ hsmaller hsub c rfl
      have hdmem : ∀ y, y ∈ d ↔ f.Descends c y := by
        intro y
        rw [hd.mem_iff hsub, descends_detach_iff hf hmem]
      have hcd : c ∈ d := (hdmem c).mpr Descends.refl
      have hp : p ∉ d := fun hp => hf.not_descends hmem ((hdmem p).mp hp)
      have hsub' : ((f.detach p c).without d).Acyclic := hsub.mono (without_subset d)
      have hsmaller' : (Finset.univ.filter (((f.detach p c).without d).Descends p)).card < n := by
        rw [← hn, detach_without hcd]
        refine Finset.card_lt_card ⟨?_, ?_⟩
        · intro x hx
          simp only [Finset.mem_filter, Finset.mem_univ, true_and] at hx ⊢
          exact hx.mono (without_subset d)
        · intro hle
          have hc' := hle (x := c) (by simpa using Descends.of_child hmem Descends.refl)
          simp only [Finset.mem_filter, Finset.mem_univ, true_and] at hc'
          exact hc'.not_mem_of_without hp hcd
      obtain ⟨d', hd'⟩ := ih _ hsmaller' hsub' p rfl
      exact ⟨d ++ d', Postorder.node hc hd hd'⟩

end Forest
