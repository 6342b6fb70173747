import Kaya.Phase1.Block

open Links

namespace Kaya

variable {h : Heap} {q : Queues} {p : Pid} {a : Word} {ids fr behind c : List Sid} {w i : Sid}
  {m lo hi : FifoMap Word Pid} {l rest : List Pid}

theorem Cut.queue_found (hcut : Cut h semdZero ids m a c w behind lo ((a, l) :: hi)) :
    FifoMap.queue a m = l := by
  rw [hcut.map_eq, FifoMap.queue_append hcut.lt]
  simp [FifoMap.queue]

theorem Cut.queue_nil (hm : FifoMap.WF m) (hcut : Cut h semdZero ids m a c w behind lo hi)
    (hkey : nextKey hi ≠ a) : FifoMap.queue a m = [] := by
  rw [hcut.map_eq, FifoMap.queue_append hcut.lt]
  exact FifoMap.queue_of_lt (hcut.gt_of_key_ne hm hkey)

/-- The cut stands in front of the queue of `a` when a pcb waits there. -/
theorem Cut.exists_found (hm : FifoMap.WF m) (ha : a < MAXINT)
    (hcut : Cut h semdZero ids m a c w behind lo hi) (hwait : FifoMap.queue a m ≠ []) :
    ∃ hi', hi = (a, FifoMap.queue a m) :: hi' := by
  by_cases hkey : nextKey hi = a
  · cases hi with
    | nil =>
      rw [nextKey] at hkey
      exact absurd ha (hkey ▸ lt_irrefl _)
    | cons e hi =>
      obtain ⟨b, l⟩ := e
      obtain rfl : b = a := hkey
      exact ⟨hi, by rw [hcut.queue_found]⟩
  · exact absurd (hcut.queue_nil hm hkey) hwait

/-- Behind the cut another address comes when nobody waits for `a`. -/
theorem Cut.key_ne (hm : FifoMap.WF m) (ha : a < MAXINT)
    (hcut : Cut h semdZero ids m a c w behind lo hi) (hwait : FifoMap.queue a m = []) :
    nextKey hi ≠ a := by
  intro hkey
  cases hi with
  | nil =>
    rw [nextKey] at hkey
    exact absurd ha (hkey ▸ lt_irrefl _)
  | cons e hi =>
    obtain ⟨b, l⟩ := e
    obtain rfl : b = a := hkey
    have hl : l ≠ [] := hm.nonempty (b, l) (by simp [hcut.map_eq])
    exact hl (hcut.queue_found ▸ hwait)

/-- Taking `p` out of the queue behind the cut, with the descriptor when the
queue has become empty. -/
theorem AslRep.dropEmptySemd (hasl : AslRep h ids fr m) (hm : FifoMap.WF m)
    (hvalues : (FifoMap.values m).Nodup)
    (hcut : Cut h semdZero ids m a c w (i :: behind) lo ((a, l) :: hi)) (hp : p ∈ l)
    {next prev : Pid → PcbPtr} (hring : Ring next prev (tailPtr (l.erase p)) (l.erase p))
    (hoff : h.LinksOff next prev l) :
    ∃ h', (dropEmptySemd (.to w)).run
        (Heap.putSProcQ i (tailPtr (l.erase p)) (h.withLinks next prev)) = .ok () h' ∧
      h.AslBecomes (Heap.putSemAdd p NULL h') (FifoMap.restrict (· ≠ p) m)
        (Function.update h.pcb_semAdd p NULL) l := by
  have hwait : FifoMap.queue a m = l := hcut.queue_found
  have hnodup := hasl.nodup_cut hcut
  have hsplit : FifoMap.values m = FifoMap.values lo ++ (l ++ FifoMap.values hi) := by
    rw [hcut.map_eq]
    simp [FifoMap.values]
  have hlinks : ∀ x ∈ FifoMap.values lo ++ FifoMap.values hi,
      next x = h.pcb_next x ∧ prev x = h.pcb_prev x := by
    intro x hx
    refine hoff x fun hxl => ?_
    have hnd := hvalues
    rw [hsplit, List.nodup_append, List.nodup_append] at hnd
    rcases List.mem_append.mp hx with hx | hx
    · exact hnd.2.2 x hx x (List.mem_append_left _ hxl) rfl
    · exact hnd.2.1.2.2 x hxl x hx rfl
  have hmap : FifoMap.restrict (· ≠ p) m =
      lo ++ if (l.erase p).isEmpty then hi else (a, l.erase p) :: hi := by
    rw [← FifoMap.setQueue_erase hm hvalues (hwait ▸ hp), hwait, hcut.map_eq,
      FifoMap.setQueue_cut hcut.lt]
  have hwi : i ≠ w := by
    rintro rfl
    simp [List.nodup_append] at hnodup
  have himax : i ≠ semdMax := by
    have hmem : i ∈ ids := by simp [hcut.ids_split]
    exact (hasl.ne_dummy (List.mem_append_left _ hmem)).2
  have hnextw : h.s_next w = .to i := hcut.next
  rw [hmap]
  by_cases hempty : l.erase p = []
  · rw [hempty] at hring ⊢
    refine ⟨{ h with
      pcb_next := next
      pcb_prev := prev
      s_next := Function.update (Function.update h.s_next w (h.s_next i)) i h.semdFree_h
      s_semAdd := Function.update h.s_semAdd i NULL
      s_procQ := Function.update h.s_procQ i .null
      semdFree_h := .to i }, ?_, ?_⟩
    · simp [Kaya.dropEmptySemd, freeSemd, emptyProcQ, hnextw, Heap.withLinks, Heap.putSNext,
        Heap.putSProcQ, Heap.putSSemAdd]
    · refine ⟨⟨_, i :: fr, hasl.dropEntry hcut hlinks rfl rfl rfl rfl rfl⟩, rfl, hoff, ?_, rfl⟩
      simp [Heap.putSemAdd, (hasl.cut_ne_semdMax hcut).symm, himax.symm]
  · have hisEmpty : (l.erase p).isEmpty = false := by simpa using hempty
    rw [hisEmpty]
    refine ⟨Heap.putSProcQ i (tailPtr (l.erase p)) (h.withLinks next prev), ?_, ?_⟩
    · simp [Kaya.dropEmptySemd, emptyProcQ, hnextw, Heap.withLinks, Heap.putSProcQ, hempty]
    · exact ⟨⟨ids, fr, hasl.setEntry hcut hring hlinks rfl rfl rfl rfl rfl⟩, rfl, hoff, rfl, rfl⟩

theorem Cut.subset_values (hcut : Cut h semdZero ids m a c w behind lo ((a, l) :: hi)) :
    l ⊆ FifoMap.values m := by
  intro x hx
  simp [hcut.map_eq, FifoMap.values, hx]

/-- `removeBlocked` wakes the pcb that has waited longest. -/
theorem AslRep.removeBlocked_cons (hasl : AslRep h ids fr m) (hm : FifoMap.WF m)
    (hvalues : (FifoMap.values m).Nodup) (ha : a < MAXINT)
    (hwait : FifoMap.queue a m = p :: rest) :
    ∃ h', (removeBlocked a).run h = .ok (.to p) h' ∧
      h.AslBecomes h' (FifoMap.restrict (· ≠ p) m) (Function.update h.pcb_semAdd p NULL)
        (FifoMap.values m) := by
  obtain ⟨c, w, behind, lo, hi, hcut, hsearch⟩ := searchASL_spec hasl hm ha
  obtain ⟨hi, rfl⟩ := hcut.exists_found hm ha (by simp [hwait])
  rw [hwait] at hcut
  cases hafter : hcut.after with
  | @cons i _ behind _ hie _ =>
    obtain ⟨next, prev, hrun, hring, hoff⟩ := removeProcQ_cons hie.2
    have herase : (p :: rest).erase p = rest := by simp
    obtain ⟨h', hdrop, hbecomes⟩ := hasl.dropEmptySemd hm hvalues hcut (p := p)
      List.mem_cons_self (show Ring next prev _ _ by rwa [herase])
      (fun x hx => hoff x fun hmem => hx (List.mem_cons_of_mem _ hmem))
    rw [herase] at hdrop
    have hkey : h.s_semAdd i = a := hie.1
    refine ⟨Heap.putSemAdd p NULL h', ?_, hbecomes.mono hcut.subset_values⟩
    simp [removeBlocked, hsearch, hcut.next, nodePtr, hkey, hrun, hdrop]

/-- On a semaphore nobody waits for, `removeBlocked` changes nothing. -/
theorem AslRep.removeBlocked_nil (hasl : AslRep h ids fr m) (hm : FifoMap.WF m) (ha : a < MAXINT)
    (hwait : FifoMap.queue a m = []) : (removeBlocked a).run h = .ok .null h := by
  obtain ⟨c, w, behind, lo, hi, hcut, hsearch⟩ := searchASL_spec hasl hm ha
  have hload := load_nodePtr hcut.after hasl.keys.2
  simp [removeBlocked, hsearch, hcut.next, hload, hcut.key_ne hm ha hwait]

/-- `outBlocked` takes a pcb out of the queue of its semaphore, at any position. -/
theorem AslRep.outBlocked_mem (hasl : AslRep h ids fr m) (hm : FifoMap.WF m)
    (hvalues : (FifoMap.values m).Nodup) (ha : h.pcb_semAdd p < MAXINT)
    (hmem : p ∈ FifoMap.queue (h.pcb_semAdd p) m) :
    ∃ h', (outBlocked (.to p)).run h = .ok (.to p) h' ∧
      h.AslBecomes h' (FifoMap.restrict (· ≠ p) m) (Function.update h.pcb_semAdd p NULL)
        (FifoMap.values m) := by
  generalize hsem : h.pcb_semAdd p = a at ha hmem
  obtain ⟨c, w, behind, lo, hi, hcut, hsearch⟩ := searchASL_spec hasl hm ha
  obtain ⟨hi, rfl⟩ := hcut.exists_found hm ha (List.ne_nil_of_mem hmem)
  cases hafter : hcut.after with
  | @cons i _ behind _ hie _ =>
    obtain ⟨x, y, hxy⟩ := List.append_of_mem hmem
    have hring := hie.2
    simp only [hxy] at hring
    obtain ⟨next, prev, hrun, hring', hoff⟩ := outProcQ_spec hring
    have hpx : p ∉ x := fun hpx =>
      (List.nodup_append.mp hring.nodup).2.2 p hpx p (by simp) rfl
    have herase : (FifoMap.queue a m).erase p = x ++ y := by
      rw [hxy, List.erase_append_right _ hpx, List.erase_cons_head]
    obtain ⟨h', hdrop, hbecomes⟩ := hasl.dropEmptySemd hm hvalues hcut hmem
      (show Ring next prev _ _ by rwa [herase]) (by
        intro z hz
        refine hoff z fun hmem => hz ?_
        simp only [hxy, List.mem_append, List.mem_cons] at hmem ⊢
        exact hmem.imp_right Or.inr)
    rw [herase] at hdrop
    have hkey : h.s_semAdd i = a := hie.1
    refine ⟨Heap.putSemAdd p NULL h', ?_, hbecomes.mono hcut.subset_values⟩
    have hload : (load Heap.pcb_semAdd (.to p)).run h = .ok a h := by rw [run_load_to, hsem]
    rw [outBlocked, Exec.run_bind_ok hload, Exec.run_bind_ok hsearch]
    simp [hsem, hcut.next, nodePtr, hkey, hrun, hdrop]

theorem removeBlocked_cons (hrep : Represents h q) (hq : q.WF) (hwait : q.waiting a = p :: rest) :
    ∃ h', (removeBlocked a).run h = .ok (.to p) h' ∧ Represents h' (q.unblock p) := by
  have ha : a < MAXINT := hq.waiting_lt (p := p) (by simp [hwait])
  obtain ⟨ids, fr, hasl⟩ := hrep.asl
  obtain ⟨h', hrun, hbecomes⟩ := hasl.removeBlocked_cons hq.asl hq.values_nodup ha hwait
  rw [hrep.semAdd] at hbecomes
  exact ⟨h', hrun, hrep.with_asl hbecomes hq.apart_of_blocked⟩

theorem removeBlocked_nil (hrep : Represents h q) (hq : q.WF) (ha : a < MAXINT)
    (hwait : q.waiting a = []) : (removeBlocked a).run h = .ok .null h := by
  obtain ⟨ids, fr, hasl⟩ := hrep.asl
  exact hasl.removeBlocked_nil hq.asl ha hwait

/-- `outBlocked` takes a blocked pcb out of its queue, at any position. -/
theorem outBlocked_spec (hrep : Represents h q) (hq : q.WF) (hp : p ∈ FifoMap.values q.asl) :
    ∃ h', (outBlocked (.to p)).run h = .ok (.to p) h' ∧ Represents h' (q.unblock p) := by
  have hmem := hq.mem_waiting_semAdd hp
  have ha : q.semAdd p < MAXINT := hq.waiting_lt hmem
  rw [← hrep.semAdd] at hmem ha
  obtain ⟨ids, fr, hasl⟩ := hrep.asl
  obtain ⟨h', hrun, hbecomes⟩ := hasl.outBlocked_mem hq.asl hq.values_nodup ha hmem
  rw [hrep.semAdd] at hbecomes
  exact ⟨h', hrun, hrep.with_asl hbecomes hq.apart_of_blocked⟩

/-- `headBlocked` looks at the first active semaphore that is not below the
address it is asked for. -/
theorem headBlocked_spec (hrep : Represents h q) (hq : q.WF) (ha : a < MAXINT) :
    (headBlocked a).run h = .ok (headPtr (FifoMap.queueFrom a q.asl)) h := by
  obtain ⟨ids, fr, hasl⟩ := hrep.asl
  obtain ⟨c, w, behind, lo, hi, hcut, hsearch⟩ := searchASL_spec hasl hq.asl ha
  have hqueue : FifoMap.queueFrom a q.asl = (hi.head?.map (·.2)).getD [] := by
    rw [hcut.map_eq, FifoMap.queueFrom_cut hcut.lt hcut.ge]
  cases hafter : hcut.after with
  | nil =>
    have hhead : headProcQ .null = (pure .null : HeapM PcbPtr) := rfl
    simp [headBlocked, hsearch, hcut.next, nodePtr, hasl.noProcs.2, hqueue, hhead]
  | @cons i e behind hi hie _ =>
    have hhead := headProcQ_spec hie.2
    simp [headBlocked, hsearch, hcut.next, nodePtr, hhead, hqueue]

end Kaya
