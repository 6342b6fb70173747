import Kaya.Phase1.Family

open Links

namespace Kaya

variable {h : Heap} {q : Queues} {p : Pid} {rest free : List Pid} {f : Forest Pid}

theorem allocPcb_nil (hrep : Represents h q) (hfree : q.free = []) :
    allocPcb.run h = .ok .null h := by
  have hhead : h.pcb_FREE_h = .null := by simpa [hfree] using hrep.free
  simp [allocPcb, hhead]

/-- The heap after `allocPcb` has taken `p`. -/
def Heap.allocated (p : Pid) (h : Heap) : Heap :=
  { h with
    pcb_next := Function.update h.pcb_next p .null
    pcb_prev := Function.update h.pcb_prev p .null
    pcb_child := Function.update h.pcb_child p .null
    pcb_prevSib := Function.update h.pcb_prevSib p .null
    pcb_nextSib := Function.update h.pcb_nextSib p .null
    pcb_semAdd := Function.update h.pcb_semAdd p NULL
    pcb_states := Function.update h.pcb_states p fun _ _ => NULL
    pcb_FREE_h := h.pcb_next p }

theorem run_allocPcb (hhead : h.pcb_FREE_h = .to p) :
    allocPcb.run h = .ok (.to p) (h.allocated p) := by
  simp [allocPcb, hhead, Heap.allocated, Heap.putNext, Heap.putPrev, Heap.putChild,
    Heap.putPrevSib, Heap.putNextSib, Heap.putSemAdd, Heap.putStates]

/-- A pcb that has been allocated joins the family without children. -/
theorem Heap.Family.allocPcb (hfamily : h.Family (p :: rest) f)
    (hkin : Kin f h.pcb_parent (p :: rest)) : (h.allocated p).Family rest f := by
  obtain ⟨hnone, hunborn⟩ := hkin.unborn p List.mem_cons_self
  constructor
  · intro x hx
    by_cases hxp : x = p
    · subst hxp
      simp only [Heap.allocated, hnone, Function.update_self]
      exact Siblings.nil
    · have hsib := hfamily.lists x (List.not_mem_cons_of_ne_of_not_mem hxp hx)
      simp only [Heap.allocated, Function.update_of_ne hxp]
      have hne : ∀ y ∈ f x, y ≠ p := by
        rintro y hy rfl
        exact hunborn x ((hkin.child x y).mp hy)
      exact hsib.congr (fun y hy => by simp [hne y hy]) (fun y hy => by simp [hne y hy])
  · intro x hx hzero
    by_cases hxp : x = p
    · simp [Heap.allocated, hxp]
    · simpa [Heap.allocated, hxp] using
        hfamily.roots x (List.not_mem_cons_of_ne_of_not_mem hxp hx) hzero

/-- `allocPcb` takes the first free pcb; it comes without children, waits
nowhere and has no trap handlers. -/
theorem allocPcb_cons (hrep : Represents h q) (hq : q.WF) (hfree : q.free = p :: rest) :
    ∃ h', allocPcb.run h = .ok (.to p) h' ∧ Represents h' (q.alloc p) := by
  have hseg := hrep.free
  rw [hfree] at hseg
  obtain ⟨hhead, hrest⟩ := hseg
  have hmem : p ∈ q.free := by simp [hfree]
  have hnodup := hq.free_nodup
  rw [hfree, List.nodup_cons] at hnodup
  have hfamily : (h.allocated p).Family (q.alloc p).free (q.alloc p).children := by
    have hkin := hrep.kin hq
    have hbefore := hrep.family
    rw [hfree] at hkin hbefore
    simpa [Queues.alloc, hfree] using hbefore.allocPcb hkin
  have hroots := hfamily.roots
  rw [show (h.allocated p).pcb_parent = (q.alloc p).parent from hrep.parent] at hroots
  refine ⟨h.allocated p, run_allocPcb hhead, ?_⟩
  refine ⟨?_, ?_, ?_, hfamily.lists, hrep.parent, hroots, ?_, ?_, hrep.rom⟩
  · show Segment (Function.update h.pcb_next p .null) (h.pcb_next p) q.free.tail .null
    rw [hfree, List.tail_cons]
    refine hrest.congr fun x hx => ?_
    have hne : x ≠ p := fun heq => hnodup.1 (heq ▸ hx)
    simp [hne]
  · refine hrep.ready.congr (fun x hx => ?_) (fun x hx => ?_)
    all_goals
      have hne : x ≠ p := fun heq => hq.not_ready_of_free hmem (heq ▸ hx)
      simp [Heap.allocated, hne]
  · refine hrep.asl_congr rfl rfl rfl rfl rfl fun x hx => ?_
    have hne : x ≠ p := fun heq => hq.not_blocked_of_free hmem (heq ▸ hx)
    simp [Heap.allocated, hne]
  · simp only [Heap.allocated, Queues.alloc, hrep.semAdd]
  · simp only [Heap.allocated, Queues.alloc, hrep.states]

/-- The heap after `freePcb`. -/
def Heap.freed (p : Pid) (h : Heap) : Heap :=
  { h with
    pcb_next := Function.update h.pcb_next p h.pcb_FREE_h
    pcb_FREE_h := .to p }

theorem run_freePcb (p : Pid) (h : Heap) : (freePcb (.to p)).run h = .ok () (h.freed p) := by
  simp [freePcb, Heap.putNext, Heap.freed]

theorem Heap.Family.freePcb (hfamily : h.Family free f) : (h.freed p).Family (p :: free) f :=
  ⟨fun x hx => hfamily.lists x (List.not_mem_of_not_mem_cons hx),
    fun x hx => hfamily.roots x (List.not_mem_of_not_mem_cons hx)⟩

/-- `freePcb` puts a pcb that is in no queue in front of the free list. -/
theorem freePcb_spec (hrep : Represents h q) (hp : p ∉ q.placed) :
    ∃ h', (freePcb (.to p)).run h = .ok () h' ∧ Represents h' (q.discard p) := by
  rw [Queues.mem_placed, not_or, not_or] at hp
  refine ⟨h.freed p, run_freePcb p h, ?_⟩
  have hoff : ∀ x, x ≠ p → Function.update h.pcb_next p h.pcb_FREE_h x = h.pcb_next x :=
    fun x hx => Function.update_of_ne hx _ _
  refine ⟨⟨rfl, ?_⟩, ?_, ?_, ?_, hrep.parent, ?_, hrep.semAdd, hrep.states, hrep.rom⟩
  · rw [show (h.freed p).pcb_next p = h.pcb_FREE_h from Function.update_self ..]
    exact hrep.free.congr fun x hx => hoff x fun heq => hp.1 (heq ▸ hx)
  · exact hrep.ready.congr (fun x hx => hoff x fun heq => hp.2.1 (heq ▸ hx)) (fun _ _ => rfl)
  · refine hrep.asl_congr rfl rfl rfl rfl rfl fun x hx => ⟨?_, rfl⟩
    exact hoff x fun heq => hp.2.2 (heq ▸ hx)
  · exact fun x hx => hrep.children x fun hmem => hx (List.mem_cons_of_mem _ hmem)
  · exact fun x hx => hrep.roots x fun hmem => hx (List.mem_cons_of_mem _ hmem)

end Kaya
