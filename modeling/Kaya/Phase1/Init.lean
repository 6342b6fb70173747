import Kaya.Links.Stack
import Kaya.Phase1.Alloc

open Links

namespace Kaya

/-- Static storage starts as zero. -/
def Heap.bss (rom : PcbPtr) : Heap where
  pcb_next _ := .zero
  pcb_prev _ := .zero
  pcb_child _ := .zero
  pcb_parent _ := .zero
  pcb_prevSib _ := .zero
  pcb_nextSib _ := .zero
  pcb_semAdd _ := 0
  pcb_states _ _ _ := 0
  pcb_FREE_h := .zero
  readyQueue := .zero
  s_next _ := .zero
  s_semAdd _ := 0
  s_procQ _ := .zero
  semdFree_h := .zero
  semdActive_h := .zero
  rom := rom

/-- Every pcb is free and no semaphore is active. -/
def Queues.initial : Queues where
  free := (List.finRange MAXPROC).reverse
  ready := []
  asl := []
  children _ := []
  parent _ := .zero
  semAdd _ := 0
  states _ _ _ := 0

theorem Queues.initial_wf : Queues.initial.WF where
  asl := FifoMap.WF.nil
  bounded := by simp [initial]
  nodup := by simpa [placed, initial] using List.nodup_finRange MAXPROC
  blocked := by simp [waiting, initial]
  idle := by simp [initial]
  child := by simp [initial]
  siblings := by simp [initial]
  unborn := by simp [initial]
  acyclic := ⟨fun p => Acc.intro p (by simp [initial])⟩

/-- The free list of pcbs. -/
def pcbStack : StackIn Heap Pid where
  next := Heap.pcb_next
  top := Heap.pcb_FREE_h
  put next top h := { h with pcb_next := next, pcb_FREE_h := top }
  next_put _ _ _ := rfl
  top_put _ _ _ := rfl
  put_put _ _ _ _ _ := rfl
  put_self _ := rfl

/-- The free list of semaphore descriptors. -/
def semdStack : StackIn Heap Sid where
  next := Heap.s_next
  top := Heap.semdFree_h
  put next top h := { h with s_next := next, semdFree_h := top }
  next_put _ _ _ := rfl
  top_put _ _ _ := rfl
  put_put _ _ _ _ _ := rfl
  put_self _ := rfl

theorem mem_semdTable (i : Sid) : i ∈ semdTable ↔ i ≠ semdZero ∧ i ≠ semdMax := by
  revert i
  decide

theorem initPcbs_run (h : Heap) :
    ∃ next head, initPcbs.run h = .ok () { h with pcb_next := next, pcb_FREE_h := head } ∧
      Segment next head (List.finRange MAXPROC).reverse .null := by
  obtain ⟨next, head, hrun, hseg, -⟩ := pcbStack.run_forM (fun i => freePcb (.to i))
    (fun _ _ => rfl) (s := { h with pcb_FREE_h := .null }) (List.nodup_finRange MAXPROC) (f := [])
    (by simp) rfl
  refine ⟨next, head, ?_, by simpa using hseg⟩
  have hclear : (modify fun h : Heap => { h with pcb_FREE_h := .null } : HeapM Unit).run h =
      .ok () { h with pcb_FREE_h := .null } := rfl
  exact (Exec.run_bind_ok hclear).trans hrun

/-- `initASL` frees all descriptors but the two dummy nodes and activates these. It
does not set the link of the last one. -/
theorem initASL_run (h : Heap) :
    ∃ h', initASL.run h = .ok () h' ∧ AslRep h' [] semdTable.reverse [] ∧
      h'.s_next semdMax = h.s_next semdMax ∧ h' = { h with
        s_next := h'.s_next, s_semAdd := h'.s_semAdd, s_procQ := h'.s_procQ,
        semdFree_h := h'.semdFree_h, semdActive_h := h'.semdActive_h } := by
  obtain ⟨next, head, hrun, hseg, hothers⟩ := semdStack.run_forM (fun i => freeSemd (.to i))
    (fun _ _ => rfl) (s := { h with semdFree_h := .null, semdActive_h := .null })
    (l := semdTable) (by decide) (f := []) (by simp) rfl
  have hclear : (modify fun h : Heap => { h with semdFree_h := .null, semdActive_h := .null } :
      HeapM Unit).run h = .ok () { h with semdFree_h := .null, semdActive_h := .null } := rfl
  have hzm : semdZero ≠ semdMax := by decide
  refine ⟨{ h with
    s_next := Function.update next semdZero (.to semdMax)
    s_semAdd := Function.update (Function.update h.s_semAdd semdZero 0) semdMax MAXINT
    s_procQ := Function.update (Function.update h.s_procQ semdZero .null) semdMax .null
    semdFree_h := head
    semdActive_h := .to semdZero }, ?_, ?_, ?_, rfl⟩
  · rw [initASL, Exec.run_bind_ok hclear, Exec.run_bind_ok hrun]
    simp [semdStack, Heap.putSSemAdd, Heap.putSProcQ, Heap.putSNext, mkEmptyProcQ]
  · rw [List.append_nil] at hseg
    refine ⟨rfl, by simp, ?_, by decide, ?_, by simp [hzm], by simp [hzm], List.Forall₂.nil⟩
    · refine hseg.congr fun x hx => Function.update_of_ne ?_ _ _
      exact ((mem_semdTable x).mp (List.mem_reverse.mp hx)).1
    · intro i
      rw [List.nil_append, List.mem_reverse]
      exact mem_semdTable i
  · have hmax : semdMax ∉ semdTable := fun hmem => ((mem_semdTable semdMax).mp hmem).2 rfl
    have hkept : next semdMax = h.s_next semdMax := hothers semdMax hmax
    simp [hzm.symm, hkept]

/-- The last entry of the table becomes the first process. -/
def firstPid : Pid := ⟨19, by decide⟩

/-- The tables when the first process runs: it is the only one. -/
def Queues.booted : Queues := Queues.initial.alloc firstPid

theorem Queues.initial_free : Queues.initial.free = firstPid :: Queues.booted.free := rfl

/-- The tables after `initPcbs` and `initASL`. -/
theorem represents_initial {h : Heap} (hready : h.readyQueue = .null)
    (hbss : h.pcb_parent = fun _ => .zero) (hsemAdd : h.pcb_semAdd = fun _ => 0)
    (hstates : h.pcb_states = fun _ _ _ => 0) (hrom : ∀ p, h.rom ≠ .to p) :
    ∃ h1 h2, initPcbs.run h = .ok () h1 ∧ initASL.run h1 = .ok () h2 ∧
      Represents h2 Queues.initial := by
  obtain ⟨next, head, hrun1, hseg⟩ := initPcbs_run h
  obtain ⟨h2, hrun2, hasl, -, hsame⟩ := initASL_run { h with pcb_next := next, pcb_FREE_h := head }
  refine ⟨_, h2, hrun1, hrun2, ?_⟩
  have hfree : ∀ p, p ∈ Queues.initial.free := by simp [Queues.initial]
  exact {
    free := by rw [hsame]; exact hseg
    ready := by rw [hsame]; exact hready ▸ Ring.nil
    asl := ⟨_, _, hasl⟩
    children := fun p hp => absurd (hfree p) hp
    parent := by rw [hsame]; exact hbss
    roots := fun p hp => absurd (hfree p) hp
    semAdd := by rw [hsame]; exact hsemAdd
    states := by rw [hsame]; exact hstates
    rom := by rw [hsame]; exact hrom }

end Kaya
